import Aezeed.Block

/-!
# The AES round core

`_AESRound`: the four T-tables `TE0`..`TE3`, the two key schedules built from the twelve
big-endian words of a 48-byte extracted key, and the table-driven round loop `rounds` behind
`AES4` and `AES10`. There is no final round without MixColumns: every round is a full one.
-/

namespace Aezeed

def te0 : List (BitVec 32) := [
  0xC66363A5#32, 0xF87C7C84#32, 0xEE777799#32, 0xF67B7B8D#32, 0xFFF2F20D#32, 0xD66B6BBD#32, 0xDE6F6FB1#32, 0x91C5C554#32,
  0x60303050#32, 0x02010103#32, 0xCE6767A9#32, 0x562B2B7D#32, 0xE7FEFE19#32, 0xB5D7D762#32, 0x4DABABE6#32, 0xEC76769A#32,
  0x8FCACA45#32, 0x1F82829D#32, 0x89C9C940#32, 0xFA7D7D87#32, 0xEFFAFA15#32, 0xB25959EB#32, 0x8E4747C9#32, 0xFBF0F00B#32,
  0x41ADADEC#32, 0xB3D4D467#32, 0x5FA2A2FD#32, 0x45AFAFEA#32, 0x239C9CBF#32, 0x53A4A4F7#32, 0xE4727296#32, 0x9BC0C05B#32,
  0x75B7B7C2#32, 0xE1FDFD1C#32, 0x3D9393AE#32, 0x4C26266A#32, 0x6C36365A#32, 0x7E3F3F41#32, 0xF5F7F702#32, 0x83CCCC4F#32,
  0x6834345C#32, 0x51A5A5F4#32, 0xD1E5E534#32, 0xF9F1F108#32, 0xE2717193#32, 0xABD8D873#32, 0x62313153#32, 0x2A15153F#32,
  0x0804040C#32, 0x95C7C752#32, 0x46232365#32, 0x9DC3C35E#32, 0x30181828#32, 0x379696A1#32, 0x0A05050F#32, 0x2F9A9AB5#32,
  0x0E070709#32, 0x24121236#32, 0x1B80809B#32, 0xDFE2E23D#32, 0xCDEBEB26#32, 0x4E272769#32, 0x7FB2B2CD#32, 0xEA75759F#32,
  0x1209091B#32, 0x1D83839E#32, 0x582C2C74#32, 0x341A1A2E#32, 0x361B1B2D#32, 0xDC6E6EB2#32, 0xB45A5AEE#32, 0x5BA0A0FB#32,
  0xA45252F6#32, 0x763B3B4D#32, 0xB7D6D661#32, 0x7DB3B3CE#32, 0x5229297B#32, 0xDDE3E33E#32, 0x5E2F2F71#32, 0x13848497#32,
  0xA65353F5#32, 0xB9D1D168#32, 0x00000000#32, 0xC1EDED2C#32, 0x40202060#32, 0xE3FCFC1F#32, 0x79B1B1C8#32, 0xB65B5BED#32,
  0xD46A6ABE#32, 0x8DCBCB46#32, 0x67BEBED9#32, 0x7239394B#32, 0x944A4ADE#32, 0x984C4CD4#32, 0xB05858E8#32, 0x85CFCF4A#32,
  0xBBD0D06B#32, 0xC5EFEF2A#32, 0x4FAAAAE5#32, 0xEDFBFB16#32, 0x864343C5#32, 0x9A4D4DD7#32, 0x66333355#32, 0x11858594#32,
  0x8A4545CF#32, 0xE9F9F910#32, 0x04020206#32, 0xFE7F7F81#32, 0xA05050F0#32, 0x783C3C44#32, 0x259F9FBA#32, 0x4BA8A8E3#32,
  0xA25151F3#32, 0x5DA3A3FE#32, 0x804040C0#32, 0x058F8F8A#32, 0x3F9292AD#32, 0x219D9DBC#32, 0x70383848#32, 0xF1F5F504#32,
  0x63BCBCDF#32, 0x77B6B6C1#32, 0xAFDADA75#32, 0x42212163#32, 0x20101030#32, 0xE5FFFF1A#32, 0xFDF3F30E#32, 0xBFD2D26D#32,
  0x81CDCD4C#32, 0x180C0C14#32, 0x26131335#32, 0xC3ECEC2F#32, 0xBE5F5FE1#32, 0x359797A2#32, 0x884444CC#32, 0x2E171739#32,
  0x93C4C457#32, 0x55A7A7F2#32, 0xFC7E7E82#32, 0x7A3D3D47#32, 0xC86464AC#32, 0xBA5D5DE7#32, 0x3219192B#32, 0xE6737395#32,
  0xC06060A0#32, 0x19818198#32, 0x9E4F4FD1#32, 0xA3DCDC7F#32, 0x44222266#32, 0x542A2A7E#32, 0x3B9090AB#32, 0x0B888883#32,
  0x8C4646CA#32, 0xC7EEEE29#32, 0x6BB8B8D3#32, 0x2814143C#32, 0xA7DEDE79#32, 0xBC5E5EE2#32, 0x160B0B1D#32, 0xADDBDB76#32,
  0xDBE0E03B#32, 0x64323256#32, 0x743A3A4E#32, 0x140A0A1E#32, 0x924949DB#32, 0x0C06060A#32, 0x4824246C#32, 0xB85C5CE4#32,
  0x9FC2C25D#32, 0xBDD3D36E#32, 0x43ACACEF#32, 0xC46262A6#32, 0x399191A8#32, 0x319595A4#32, 0xD3E4E437#32, 0xF279798B#32,
  0xD5E7E732#32, 0x8BC8C843#32, 0x6E373759#32, 0xDA6D6DB7#32, 0x018D8D8C#32, 0xB1D5D564#32, 0x9C4E4ED2#32, 0x49A9A9E0#32,
  0xD86C6CB4#32, 0xAC5656FA#32, 0xF3F4F407#32, 0xCFEAEA25#32, 0xCA6565AF#32, 0xF47A7A8E#32, 0x47AEAEE9#32, 0x10080818#32,
  0x6FBABAD5#32, 0xF0787888#32, 0x4A25256F#32, 0x5C2E2E72#32, 0x381C1C24#32, 0x57A6A6F1#32, 0x73B4B4C7#32, 0x97C6C651#32,
  0xCBE8E823#32, 0xA1DDDD7C#32, 0xE874749C#32, 0x3E1F1F21#32, 0x964B4BDD#32, 0x61BDBDDC#32, 0x0D8B8B86#32, 0x0F8A8A85#32,
  0xE0707090#32, 0x7C3E3E42#32, 0x71B5B5C4#32, 0xCC6666AA#32, 0x904848D8#32, 0x06030305#32, 0xF7F6F601#32, 0x1C0E0E12#32,
  0xC26161A3#32, 0x6A35355F#32, 0xAE5757F9#32, 0x69B9B9D0#32, 0x17868691#32, 0x99C1C158#32, 0x3A1D1D27#32, 0x279E9EB9#32,
  0xD9E1E138#32, 0xEBF8F813#32, 0x2B9898B3#32, 0x22111133#32, 0xD26969BB#32, 0xA9D9D970#32, 0x078E8E89#32, 0x339494A7#32,
  0x2D9B9BB6#32, 0x3C1E1E22#32, 0x15878792#32, 0xC9E9E920#32, 0x87CECE49#32, 0xAA5555FF#32, 0x50282878#32, 0xA5DFDF7A#32,
  0x038C8C8F#32, 0x59A1A1F8#32, 0x09898980#32, 0x1A0D0D17#32, 0x65BFBFDA#32, 0xD7E6E631#32, 0x844242C6#32, 0xD06868B8#32,
  0x824141C3#32, 0x299999B0#32, 0x5A2D2D77#32, 0x1E0F0F11#32, 0x7BB0B0CB#32, 0xA85454FC#32, 0x6DBBBBD6#32, 0x2C16163A#32]

def te1 : List (BitVec 32) := [
  0xA5C66363#32, 0x84F87C7C#32, 0x99EE7777#32, 0x8DF67B7B#32, 0x0DFFF2F2#32, 0xBDD66B6B#32, 0xB1DE6F6F#32, 0x5491C5C5#32,
  0x50603030#32, 0x03020101#32, 0xA9CE6767#32, 0x7D562B2B#32, 0x19E7FEFE#32, 0x62B5D7D7#32, 0xE64DABAB#32, 0x9AEC7676#32,
  0x458FCACA#32, 0x9D1F8282#32, 0x4089C9C9#32, 0x87FA7D7D#32, 0x15EFFAFA#32, 0xEBB25959#32, 0xC98E4747#32, 0x0BFBF0F0#32,
  0xEC41ADAD#32, 0x67B3D4D4#32, 0xFD5FA2A2#32, 0xEA45AFAF#32, 0xBF239C9C#32, 0xF753A4A4#32, 0x96E47272#32, 0x5B9BC0C0#32,
  0xC275B7B7#32, 0x1CE1FDFD#32, 0xAE3D9393#32, 0x6A4C2626#32, 0x5A6C3636#32, 0x417E3F3F#32, 0x02F5F7F7#32, 0x4F83CCCC#32,
  0x5C683434#32, 0xF451A5A5#32, 0x34D1E5E5#32, 0x08F9F1F1#32, 0x93E27171#32, 0x73ABD8D8#32, 0x53623131#32, 0x3F2A1515#32,
  0x0C080404#32, 0x5295C7C7#32, 0x65462323#32, 0x5E9DC3C3#32, 0x28301818#32, 0xA1379696#32, 0x0F0A0505#32, 0xB52F9A9A#32,
  0x090E0707#32, 0x36241212#32, 0x9B1B8080#32, 0x3DDFE2E2#32, 0x26CDEBEB#32, 0x694E2727#32, 0xCD7FB2B2#32, 0x9FEA7575#32,
  0x1B120909#32, 0x9E1D8383#32, 0x74582C2C#32, 0x2E341A1A#32, 0x2D361B1B#32, 0xB2DC6E6E#32, 0xEEB45A5A#32, 0xFB5BA0A0#32,
  0xF6A45252#32, 0x4D763B3B#32, 0x61B7D6D6#32, 0xCE7DB3B3#32, 0x7B522929#32, 0x3EDDE3E3#32, 0x715E2F2F#32, 0x97138484#32,
  0xF5A65353#32, 0x68B9D1D1#32, 0x00000000#32, 0x2CC1EDED#32, 0x60402020#32, 0x1FE3FCFC#32, 0xC879B1B1#32, 0xEDB65B5B#32,
  0xBED46A6A#32, 0x468DCBCB#32, 0xD967BEBE#32, 0x4B723939#32, 0xDE944A4A#32, 0xD4984C4C#32, 0xE8B05858#32, 0x4A85CFCF#32,
  0x6BBBD0D0#32, 0x2AC5EFEF#32, 0xE54FAAAA#32, 0x16EDFBFB#32, 0xC5864343#32, 0xD79A4D4D#32, 0x55663333#32, 0x94118585#32,
  0xCF8A4545#32, 0x10E9F9F9#32, 0x06040202#32, 0x81FE7F7F#32, 0xF0A05050#32, 0x44783C3C#32, 0xBA259F9F#32, 0xE34BA8A8#32,
  0xF3A25151#32, 0xFE5DA3A3#32, 0xC0804040#32, 0x8A058F8F#32, 0xAD3F9292#32, 0xBC219D9D#32, 0x48703838#32, 0x04F1F5F5#32,
  0xDF63BCBC#32, 0xC177B6B6#32, 0x75AFDADA#32, 0x63422121#32, 0x30201010#32, 0x1AE5FFFF#32, 0x0EFDF3F3#32, 0x6DBFD2D2#32,
  0x4C81CDCD#32, 0x14180C0C#32, 0x35261313#32, 0x2FC3ECEC#32, 0xE1BE5F5F#32, 0xA2359797#32, 0xCC884444#32, 0x392E1717#32,
  0x5793C4C4#32, 0xF255A7A7#32, 0x82FC7E7E#32, 0x477A3D3D#32, 0xACC86464#32, 0xE7BA5D5D#32, 0x2B321919#32, 0x95E67373#32,
  0xA0C06060#32, 0x98198181#32, 0xD19E4F4F#32, 0x7FA3DCDC#32, 0x66442222#32, 0x7E542A2A#32, 0xAB3B9090#32, 0x830B8888#32,
  0xCA8C4646#32, 0x29C7EEEE#32, 0xD36BB8B8#32, 0x3C281414#32, 0x79A7DEDE#32, 0xE2BC5E5E#32, 0x1D160B0B#32, 0x76ADDBDB#32,
  0x3BDBE0E0#32, 0x56643232#32, 0x4E743A3A#32, 0x1E140A0A#32, 0xDB924949#32, 0x0A0C0606#32, 0x6C482424#32, 0xE4B85C5C#32,
  0x5D9FC2C2#32, 0x6EBDD3D3#32, 0xEF43ACAC#32, 0xA6C46262#32, 0xA8399191#32, 0xA4319595#32, 0x37D3E4E4#32, 0x8BF27979#32,
  0x32D5E7E7#32, 0x438BC8C8#32, 0x596E3737#32, 0xB7DA6D6D#32, 0x8C018D8D#32, 0x64B1D5D5#32, 0xD29C4E4E#32, 0xE049A9A9#32,
  0xB4D86C6C#32, 0xFAAC5656#32, 0x07F3F4F4#32, 0x25CFEAEA#32, 0xAFCA6565#32, 0x8EF47A7A#32, 0xE947AEAE#32, 0x18100808#32,
  0xD56FBABA#32, 0x88F07878#32, 0x6F4A2525#32, 0x725C2E2E#32, 0x24381C1C#32, 0xF157A6A6#32, 0xC773B4B4#32, 0x5197C6C6#32,
  0x23CBE8E8#32, 0x7CA1DDDD#32, 0x9CE87474#32, 0x213E1F1F#32, 0xDD964B4B#32, 0xDC61BDBD#32, 0x860D8B8B#32, 0x850F8A8A#32,
  0x90E07070#32, 0x427C3E3E#32, 0xC471B5B5#32, 0xAACC6666#32, 0xD8904848#32, 0x05060303#32, 0x01F7F6F6#32, 0x121C0E0E#32,
  0xA3C26161#32, 0x5F6A3535#32, 0xF9AE5757#32, 0xD069B9B9#32, 0x91178686#32, 0x5899C1C1#32, 0x273A1D1D#32, 0xB9279E9E#32,
  0x38D9E1E1#32, 0x13EBF8F8#32, 0xB32B9898#32, 0x33221111#32, 0xBBD26969#32, 0x70A9D9D9#32, 0x89078E8E#32, 0xA7339494#32,
  0xB62D9B9B#32, 0x223C1E1E#32, 0x92158787#32, 0x20C9E9E9#32, 0x4987CECE#32, 0xFFAA5555#32, 0x78502828#32, 0x7AA5DFDF#32,
  0x8F038C8C#32, 0xF859A1A1#32, 0x80098989#32, 0x171A0D0D#32, 0xDA65BFBF#32, 0x31D7E6E6#32, 0xC6844242#32, 0xB8D06868#32,
  0xC3824141#32, 0xB0299999#32, 0x775A2D2D#32, 0x111E0F0F#32, 0xCB7BB0B0#32, 0xFCA85454#32, 0xD66DBBBB#32, 0x3A2C1616#32]

def te2 : List (BitVec 32) := [
  0x63A5C663#32, 0x7C84F87C#32, 0x7799EE77#32, 0x7B8DF67B#32, 0xF20DFFF2#32, 0x6BBDD66B#32, 0x6FB1DE6F#32, 0xC55491C5#32,
  0x30506030#32, 0x01030201#32, 0x67A9CE67#32, 0x2B7D562B#32, 0xFE19E7FE#32, 0xD762B5D7#32, 0xABE64DAB#32, 0x769AEC76#32,
  0xCA458FCA#32, 0x829D1F82#32, 0xC94089C9#32, 0x7D87FA7D#32, 0xFA15EFFA#32, 0x59EBB259#32, 0x47C98E47#32, 0xF00BFBF0#32,
  0xADEC41AD#32, 0xD467B3D4#32, 0xA2FD5FA2#32, 0xAFEA45AF#32, 0x9CBF239C#32, 0xA4F753A4#32, 0x7296E472#32, 0xC05B9BC0#32,
  0xB7C275B7#32, 0xFD1CE1FD#32, 0x93AE3D93#32, 0x266A4C26#32, 0x365A6C36#32, 0x3F417E3F#32, 0xF702F5F7#32, 0xCC4F83CC#32,
  0x345C6834#32, 0xA5F451A5#32, 0xE534D1E5#32, 0xF108F9F1#32, 0x7193E271#32, 0xD873ABD8#32, 0x31536231#32, 0x153F2A15#32,
  0x040C0804#32, 0xC75295C7#32, 0x23654623#32, 0xC35E9DC3#32, 0x18283018#32, 0x96A13796#32, 0x050F0A05#32, 0x9AB52F9A#32,
  0x07090E07#32, 0x12362412#32, 0x809B1B80#32, 0xE23DDFE2#32, 0xEB26CDEB#32, 0x27694E27#32, 0xB2CD7FB2#32, 0x759FEA75#32,
  0x091B1209#32, 0x839E1D83#32, 0x2C74582C#32, 0x1A2E341A#32, 0x1B2D361B#32, 0x6EB2DC6E#32, 0x5AEEB45A#32, 0xA0FB5BA0#32,
  0x52F6A452#32, 0x3B4D763B#32, 0xD661B7D6#32, 0xB3CE7DB3#32, 0x297B5229#32, 0xE33EDDE3#32, 0x2F715E2F#32, 0x84971384#32,
  0x53F5A653#32, 0xD168B9D1#32, 0x00000000#32, 0xED2CC1ED#32, 0x20604020#32, 0xFC1FE3FC#32, 0xB1C879B1#32, 0x5BEDB65B#32,
  0x6ABED46A#32, 0xCB468DCB#32, 0xBED967BE#32, 0x394B7239#32, 0x4ADE944A#32, 0x4CD4984C#32, 0x58E8B058#32, 0xCF4A85CF#32,
  0xD06BBBD0#32, 0xEF2AC5EF#32, 0xAAE54FAA#32, 0xFB16EDFB#32, 0x43C58643#32, 0x4DD79A4D#32, 0x33556633#32, 0x85941185#32,
  0x45CF8A45#32, 0xF910E9F9#32, 0x02060402#32, 0x7F81FE7F#32, 0x50F0A050#32, 0x3C44783C#32, 0x9FBA259F#32, 0xA8E34BA8#32,
  0x51F3A251#32, 0xA3FE5DA3#32, 0x40C08040#32, 0x8F8A058F#32, 0x92AD3F92#32, 0x9DBC219D#32, 0x38487038#32, 0xF504F1F5#32,
  0xBCDF63BC#32, 0xB6C177B6#32, 0xDA75AFDA#32, 0x21634221#32, 0x10302010#32, 0xFF1AE5FF#32, 0xF30EFDF3#32, 0xD26DBFD2#32,
  0xCD4C81CD#32, 0x0C14180C#32, 0x13352613#32, 0xEC2FC3EC#32, 0x5FE1BE5F#32, 0x97A23597#32, 0x44CC8844#32, 0x17392E17#32,
  0xC45793C4#32, 0xA7F255A7#32, 0x7E82FC7E#32, 0x3D477A3D#32, 0x64ACC864#32, 0x5DE7BA5D#32, 0x192B3219#32, 0x7395E673#32,
  0x60A0C060#32, 0x81981981#32, 0x4FD19E4F#32, 0xDC7FA3DC#32, 0x22664422#32, 0x2A7E542A#32, 0x90AB3B90#32, 0x88830B88#32,
  0x46CA8C46#32, 0xEE29C7EE#32, 0xB8D36BB8#32, 0x143C2814#32, 0xDE79A7DE#32, 0x5EE2BC5E#32, 0x0B1D160B#32, 0xDB76ADDB#32,
  0xE03BDBE0#32, 0x32566432#32, 0x3A4E743A#32, 0x0A1E140A#32, 0x49DB9249#32, 0x060A0C06#32, 0x246C4824#32, 0x5CE4B85C#32,
  0xC25D9FC2#32, 0xD36EBDD3#32, 0xACEF43AC#32, 0x62A6C462#32, 0x91A83991#32, 0x95A43195#32, 0xE437D3E4#32, 0x798BF279#32,
  0xE732D5E7#32, 0xC8438BC8#32, 0x37596E37#32, 0x6DB7DA6D#32, 0x8D8C018D#32, 0xD564B1D5#32, 0x4ED29C4E#32, 0xA9E049A9#32,
  0x6CB4D86C#32, 0x56FAAC56#32, 0xF407F3F4#32, 0xEA25CFEA#32, 0x65AFCA65#32, 0x7A8EF47A#32, 0xAEE947AE#32, 0x08181008#32,
  0xBAD56FBA#32, 0x7888F078#32, 0x256F4A25#32, 0x2E725C2E#32, 0x1C24381C#32, 0xA6F157A6#32, 0xB4C773B4#32, 0xC65197C6#32,
  0xE823CBE8#32, 0xDD7CA1DD#32, 0x749CE874#32, 0x1F213E1F#32, 0x4BDD964B#32, 0xBDDC61BD#32, 0x8B860D8B#32, 0x8A850F8A#32,
  0x7090E070#32, 0x3E427C3E#32, 0xB5C471B5#32, 0x66AACC66#32, 0x48D89048#32, 0x03050603#32, 0xF601F7F6#32, 0x0E121C0E#32,
  0x61A3C261#32, 0x355F6A35#32, 0x57F9AE57#32, 0xB9D069B9#32, 0x86911786#32, 0xC15899C1#32, 0x1D273A1D#32, 0x9EB9279E#32,
  0xE138D9E1#32, 0xF813EBF8#32, 0x98B32B98#32, 0x11332211#32, 0x69BBD269#32, 0xD970A9D9#32, 0x8E89078E#32, 0x94A73394#32,
  0x9BB62D9B#32, 0x1E223C1E#32, 0x87921587#32, 0xE920C9E9#32, 0xCE4987CE#32, 0x55FFAA55#32, 0x28785028#32, 0xDF7AA5DF#32,
  0x8C8F038C#32, 0xA1F859A1#32, 0x89800989#32, 0x0D171A0D#32, 0xBFDA65BF#32, 0xE631D7E6#32, 0x42C68442#32, 0x68B8D068#32,
  0x41C38241#32, 0x99B02999#32, 0x2D775A2D#32, 0x0F111E0F#32, 0xB0CB7BB0#32, 0x54FCA854#32, 0xBBD66DBB#32, 0x163A2C16#32]

def te3 : List (BitVec 32) := [
  0x6363A5C6#32, 0x7C7C84F8#32, 0x777799EE#32, 0x7B7B8DF6#32, 0xF2F20DFF#32, 0x6B6BBDD6#32, 0x6F6FB1DE#32, 0xC5C55491#32,
  0x30305060#32, 0x01010302#32, 0x6767A9CE#32, 0x2B2B7D56#32, 0xFEFE19E7#32, 0xD7D762B5#32, 0xABABE64D#32, 0x76769AEC#32,
  0xCACA458F#32, 0x82829D1F#32, 0xC9C94089#32, 0x7D7D87FA#32, 0xFAFA15EF#32, 0x5959EBB2#32, 0x4747C98E#32, 0xF0F00BFB#32,
  0xADADEC41#32, 0xD4D467B3#32, 0xA2A2FD5F#32, 0xAFAFEA45#32, 0x9C9CBF23#32, 0xA4A4F753#32, 0x727296E4#32, 0xC0C05B9B#32,
  0xB7B7C275#32, 0xFDFD1CE1#32, 0x9393AE3D#32, 0x26266A4C#32, 0x36365A6C#32, 0x3F3F417E#32, 0xF7F702F5#32, 0xCCCC4F83#32,
  0x34345C68#32, 0xA5A5F451#32, 0xE5E534D1#32, 0xF1F108F9#32, 0x717193E2#32, 0xD8D873AB#32, 0x31315362#32, 0x15153F2A#32,
  0x04040C08#32, 0xC7C75295#32, 0x23236546#32, 0xC3C35E9D#32, 0x18182830#32, 0x9696A137#32, 0x05050F0A#32, 0x9A9AB52F#32,
  0x0707090E#32, 0x12123624#32, 0x80809B1B#32, 0xE2E23DDF#32, 0xEBEB26CD#32, 0x2727694E#32, 0xB2B2CD7F#32, 0x75759FEA#32,
  0x09091B12#32, 0x83839E1D#32, 0x2C2C7458#32, 0x1A1A2E34#32, 0x1B1B2D36#32, 0x6E6EB2DC#32, 0x5A5AEEB4#32, 0xA0A0FB5B#32,
  0x5252F6A4#32, 0x3B3B4D76#32, 0xD6D661B7#32, 0xB3B3CE7D#32, 0x29297B52#32, 0xE3E33EDD#32, 0x2F2F715E#32, 0x84849713#32,
  0x5353F5A6#32, 0xD1D168B9#32, 0x00000000#32, 0xEDED2CC1#32, 0x20206040#32, 0xFCFC1FE3#32, 0xB1B1C879#32, 0x5B5BEDB6#32,
  0x6A6ABED4#32, 0xCBCB468D#32, 0xBEBED967#32, 0x39394B72#32, 0x4A4ADE94#32, 0x4C4CD498#32, 0x5858E8B0#32, 0xCFCF4A85#32,
  0xD0D06BBB#32, 0xEFEF2AC5#32, 0xAAAAE54F#32, 0xFBFB16ED#32, 0x4343C586#32, 0x4D4DD79A#32, 0x33335566#32, 0x85859411#32,
  0x4545CF8A#32, 0xF9F910E9#32, 0x02020604#32, 0x7F7F81FE#32, 0x5050F0A0#32, 0x3C3C4478#32, 0x9F9FBA25#32, 0xA8A8E34B#32,
  0x5151F3A2#32, 0xA3A3FE5D#32, 0x4040C080#32, 0x8F8F8A05#32, 0x9292AD3F#32, 0x9D9DBC21#32, 0x38384870#32, 0xF5F504F1#32,
  0xBCBCDF63#32, 0xB6B6C177#32, 0xDADA75AF#32, 0x21216342#32, 0x10103020#32, 0xFFFF1AE5#32, 0xF3F30EFD#32, 0xD2D26DBF#32,
  0xCDCD4C81#32, 0x0C0C1418#32, 0x13133526#32, 0xECEC2FC3#32, 0x5F5FE1BE#32, 0x9797A235#32, 0x4444CC88#32, 0x1717392E#32,
  0xC4C45793#32, 0xA7A7F255#32, 0x7E7E82FC#32, 0x3D3D477A#32, 0x6464ACC8#32, 0x5D5DE7BA#32, 0x19192B32#32, 0x737395E6#32,
  0x6060A0C0#32, 0x81819819#32, 0x4F4FD19E#32, 0xDCDC7FA3#32, 0x22226644#32, 0x2A2A7E54#32, 0x9090AB3B#32, 0x8888830B#32,
  0x4646CA8C#32, 0xEEEE29C7#32, 0xB8B8D36B#32, 0x14143C28#32, 0xDEDE79A7#32, 0x5E5EE2BC#32, 0x0B0B1D16#32, 0xDBDB76AD#32,
  0xE0E03BDB#32, 0x32325664#32, 0x3A3A4E74#32, 0x0A0A1E14#32, 0x4949DB92#32, 0x06060A0C#32, 0x24246C48#32, 0x5C5CE4B8#32,
  0xC2C25D9F#32, 0xD3D36EBD#32, 0xACACEF43#32, 0x6262A6C4#32, 0x9191A839#32, 0x9595A431#32, 0xE4E437D3#32, 0x79798BF2#32,
  0xE7E732D5#32, 0xC8C8438B#32, 0x3737596E#32, 0x6D6DB7DA#32, 0x8D8D8C01#32, 0xD5D564B1#32, 0x4E4ED29C#32, 0xA9A9E049#32,
  0x6C6CB4D8#32, 0x5656FAAC#32, 0xF4F407F3#32, 0xEAEA25CF#32, 0x6565AFCA#32, 0x7A7A8EF4#32, 0xAEAEE947#32, 0x08081810#32,
  0xBABAD56F#32, 0x787888F0#32, 0x25256F4A#32, 0x2E2E725C#32, 0x1C1C2438#32, 0xA6A6F157#32, 0xB4B4C773#32, 0xC6C65197#32,
  0xE8E823CB#32, 0xDDDD7CA1#32, 0x74749CE8#32, 0x1F1F213E#32, 0x4B4BDD96#32, 0xBDBDDC61#32, 0x8B8B860D#32, 0x8A8A850F#32,
  0x707090E0#32, 0x3E3E427C#32, 0xB5B5C471#32, 0x6666AACC#32, 0x4848D890#32, 0x03030506#32, 0xF6F601F7#32, 0x0E0E121C#32,
  0x6161A3C2#32, 0x35355F6A#32, 0x5757F9AE#32, 0xB9B9D069#32, 0x86869117#32, 0xC1C15899#32, 0x1D1D273A#32, 0x9E9EB927#32,
  0xE1E138D9#32, 0xF8F813EB#32, 0x9898B32B#32, 0x11113322#32, 0x6969BBD2#32, 0xD9D970A9#32, 0x8E8E8907#32, 0x9494A733#32,
  0x9B9BB62D#32, 0x1E1E223C#32, 0x87879215#32, 0xE9E920C9#32, 0xCECE4987#32, 0x5555FFAA#32, 0x28287850#32, 0xDFDF7AA5#32,
  0x8C8C8F03#32, 0xA1A1F859#32, 0x89898009#32, 0x0D0D171A#32, 0xBFBFDA65#32, 0xE6E631D7#32, 0x4242C684#32, 0x6868B8D0#32,
  0x4141C382#32, 0x9999B029#32, 0x2D2D775A#32, 0x0F0F111E#32, 0xB0B0CB7B#32, 0x5454FCA8#32, 0xBBBBD66D#32, 0x16163A2C#32]

def readUint32BE (block : Bytes) (offset : Nat) : BitVec 32 :=
  BitVec.ofNat 32 (fromBytesBE (slice block offset (offset + 4)))

def writeUint32BE (block : Bytes) (offset : Nat) (value : BitVec 32) : Bytes :=
  setSlice block offset (offset + 4) (toBytesBE 4 value.toNat)

def uint8 (x : BitVec 32) : Nat := (x &&& 0xFF#32).toNat

structure AESRound where
  aes10Key : List (BitVec 32)
  aes4Key : List (BitVec 32)
  deriving DecidableEq, Repr

/-- `_AESRound.__init__(key)`: both schedules start as zero lists, so the last four words of
the 4-round schedule stay zero. -/
def AESRound.new (key : Bytes) : AESRound :=
  let words := (List.range 12).map fun i => readUint32BE key (4 * i)
  { aes10Key := words ++ words ++ words ++ words.take 4
    aes4Key := (words.drop 4).take 4 ++ words.take 4 ++ (words.drop 8).take 4 ++
      List.replicate 4 0 }

def AESRound.reset (aes : AESRound) : AESRound :=
  { aes10Key := aes.aes10Key.map fun _ => 0
    aes4Key := aes.aes4Key.map fun _ => 0 }

/-- One pass of the `for r in range(rounds)` loop of `_AESRound.rounds` on the state words
`s0, s1, s2, s3`. The `_uint32` masks are the identity on 32-bit words. -/
def roundStep (keys : List (BitVec 32)) (s : BitVec 32 × BitVec 32 × BitVec 32 × BitVec 32)
    (r : Nat) : BitVec 32 × BitVec 32 × BitVec 32 × BitVec 32 :=
  let (s0, s1, s2, s3) := s
  let rkOff := r * 4
  let t0 := te0.getD (uint8 (s0 >>> 24)) 0 ^^^ te1.getD (uint8 (s1 >>> 16)) 0 ^^^
    te2.getD (uint8 (s2 >>> 8)) 0 ^^^ te3.getD (uint8 s3) 0 ^^^ keys.getD rkOff 0
  let t1 := te0.getD (uint8 (s1 >>> 24)) 0 ^^^ te1.getD (uint8 (s2 >>> 16)) 0 ^^^
    te2.getD (uint8 (s3 >>> 8)) 0 ^^^ te3.getD (uint8 s0) 0 ^^^ keys.getD (rkOff + 1) 0
  let t2 := te0.getD (uint8 (s2 >>> 24)) 0 ^^^ te1.getD (uint8 (s3 >>> 16)) 0 ^^^
    te2.getD (uint8 (s0 >>> 8)) 0 ^^^ te3.getD (uint8 s1) 0 ^^^ keys.getD (rkOff + 2) 0
  let t3 := te0.getD (uint8 (s3 >>> 24)) 0 ^^^ te1.getD (uint8 (s0 >>> 16)) 0 ^^^
    te2.getD (uint8 (s1 >>> 8)) 0 ^^^ te3.getD (uint8 s2) 0 ^^^ keys.getD (rkOff + 3) 0
  (t0, t1, t2, t3)

/-- `_AESRound.rounds(block, rounds)`: the block it leaves behind. -/
def AESRound.rounds (aes : AESRound) (block : Bytes) (rounds : Nat) : Bytes :=
  let keys := if rounds = 4 then aes.aes4Key else aes.aes10Key
  let s := (readUint32BE block 0, readUint32BE block 4, readUint32BE block 8,
    readUint32BE block 12)
  let (s0, s1, s2, s3) := (List.range rounds).foldl (roundStep keys) s
  writeUint32BE (writeUint32BE (writeUint32BE (writeUint32BE block 0 s0) 4 s1) 8 s2) 12 s3

/-- `_AESRound.AES4(j, i, l, src, dst)`: the block it writes into `dst`. -/
def AESRound.aes4 (aes : AESRound) (j i l src : Bytes) : Bytes :=
  aes.rounds (xorBytes4x16 j i l src) 4

/-- `_AESRound.AES10(l, src, dst)`: the block it writes into `dst`. -/
def AESRound.aes10 (aes : AESRound) (l src : Bytes) : Bytes :=
  aes.rounds (xorBytes1x16 src l) 10

theorem length_writeUint32BE (block : Bytes) (offset : Nat) (value : BitVec 32) :
    (writeUint32BE block offset value).length =
      min offset block.length + 4 + (block.length - (offset + 4)) := by
  simp [writeUint32BE, setSlice, Nat.add_assoc]

theorem length_rounds (aes : AESRound) (block : Bytes) (rounds : Nat) (h : block.length ≤ 16) :
    (aes.rounds block rounds).length = 16 := by
  simp only [AESRound.rounds]
  generalize (List.range rounds).foldl _ _ = s
  obtain ⟨s0, s1, s2, s3⟩ := s
  simp only [length_writeUint32BE]
  omega

@[simp] theorem length_aes4 (aes : AESRound) (j i l src : Bytes) :
    (aes.aes4 j i l src).length = 16 :=
  length_rounds _ _ _ (length_xorBytes1x16_le _ _)

@[simp] theorem length_aes10 (aes : AESRound) (l src : Bytes) : (aes.aes10 l src).length = 16 :=
  length_rounds _ _ _ (length_xorBytes1x16_le _ _)

end Aezeed
