import Aezeed.Bytes
import Aezeed.Crc32c
import Aezeed.Mnemonic
import Aezeed.Block
import Aezeed.Field
import Aezeed.Bits
import Aezeed.AesRound
import Aezeed.AesSpec
import Aezeed.State
import Aezeed.Tiny
import Aezeed.TinySpec
import Aezeed.Hash
import Aezeed.HashSpec
import Aezeed.Core
import Aezeed.CoreSpec
import Aezeed.Decrypt
import Aezeed.Decode
import Aezeed.Validate
import Aezeed.PrfSpec
import Aezeed.Session
import Aezeed.Fragment
import Aezeed.PyText
import Aezeed.Batch
import Aezeed.BatchRuns
import Aezeed.BatchArgs
