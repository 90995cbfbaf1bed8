import Bclib.Abci.Admission
import Bclib.Abci.Completion
import Bclib.Algorithm.Address
import Bclib.Algorithm.Envelope
import Bclib.Bignumber.Number
import Bclib.Bn.Json
import Bclib.Bn.Sqrt
import Bclib.Data.Base58
import Bclib.Data.Base64
import Bclib.Data.Varint
import Bclib.Fs.CopyTree
import Bclib.Fs.MakeDir
import Bclib.Fs.Restore
import Bclib.Fs.UnTarGz
import Bclib.Go.Decimal
import Bclib.Go.Hex
import Bclib.Go.Json
import Bclib.Hdwal.Neuter
import Bclib.Hdwal.Serialize
import Bclib.Log.Lifecycle
import Bclib.Log.Rotation
import Bclib.Mc.Isolation
import Bclib.Mc.Rollback
import Bclib.Merkle.Trail
import Bclib.Rlp.Accounting
import Bclib.Rlp.Independence
import Bclib.Rlp.MapRoundTrip
import Bclib.Rlp.OutputSpec
import Bclib.Rlp.Progress
import Bclib.Rlp.Raw
import Bclib.Rlp.Reader
import Bclib.Rlp.StrictMaps
import Bclib.Socket.Client
import Bclib.Socket.Closing
import Bclib.Socket.Framing
import Bclib.Socket.Matching
import Bclib.Socket.Pool
import Bclib.Socket.Server
import Bclib.Tx.Malleability
import Bclib.Tx.Model
import Bclib.Tx.Parse
import Bclib.Tx.Query
import Bclib.Tx.RoundTrip
import Bclib.Utils.HexConvert
import Bclib.Wal.Store
