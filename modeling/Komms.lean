import Komms.Control.Except
import Komms.Control.Interaction
import Komms.Control.InPlace
import Komms.Control.Verdict
import Komms.Control.Alike
import Komms.Control.Measured
import Komms.Text.Str
import Komms.Text.Hex
import Komms.Collections.SortedMap
import Komms.Collections.Related
import Komms.Collections.PrefixCode
import Komms.Collections.SelfDelimiting
import Komms.Collections.StableSort
import Komms.Collections.Largest
import Komms.Collections.Paging
import Komms.Cbor.Item
import Komms.Protocol.Canonical
import Komms.Protocol.Locality
import Komms.Protocol.WalkCost
import Komms.Protocol.Ciborium
import Komms.Protocol.Event
import Komms.Protocol.Validate
import Komms.Protocol.TypeRules
import Komms.Protocol.Identifiers
import Komms.Protocol.Parse
import Komms.Protocol.Lossless
import Komms.Protocol.Encode
import Komms.Protocol.Payload
import Komms.Protocol.RoundTrip
import Komms.Protocol.Posture
import Komms.Protocol.Sealed
import Komms.Protocol.Roles
import Komms.Protocol.Signing
import Komms.Protocol.WireSignature
import Komms.Protocol.Forward
import Komms.Protocol.Grammar
import Komms.Protocol.Extensions
import Komms.Protocol.Finality
import Komms.Crypto.HashChain
import Komms.Crypto.StateHash
import Komms.Crypto.FasterHex
import Komms.Crypto.RequestAuth
import Komms.Crypto.Aead
import Komms.Crypto.SealedSlots
import Komms.Crypto.Kdf
import Komms.Cli.Hexutil
import Komms.Cli.Post
import Komms.Cli.Output
import Komms.Cli.Id
import Komms.Cli.Decode
import Komms.Cli.Commands
import Komms.Cli.SignedPost
import Komms.Cli.Submit
import Komms.Cli.Rpc
import Komms.Cli.Search
import Komms.Cli.Scan
import Komms.Cli.Transaction
import Komms.Cli.Postcard
import Komms.Cli.IndexScan
import Komms.Cli.ReadIndex
import Komms.Cli.Online
