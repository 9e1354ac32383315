import KernelNode.AddressBook.Collisions
import KernelNode.AddressBook.Coverage
import KernelNode.AddressBook.RecordCodec
import KernelNode.AddressBook.RoundTrip
import KernelNode.AddressBook.Selection
import KernelNode.Net.Confirmation
import KernelNode.Net.Delivery
import KernelNode.Net.Destinations
import KernelNode.Net.Dial
import KernelNode.Net.Drain
import KernelNode.Net.FetchOnce
import KernelNode.Net.Interleaving
import KernelNode.Net.Ownership
import KernelNode.Net.Stall
import KernelNode.Net.Stop
import KernelNode.Net.SyncRuns
import KernelNode.Node.ConnectPeers
import KernelNode.Node.Payment
import KernelNode.Node.Reservation
import KernelNode.Node.Restart
import KernelNode.Node.WalletFile
import KernelNode.P2p.Clock
import KernelNode.P2p.TwoEnds
import KernelNode.Wallet.Fees
import KernelNode.Wallet.Finality
import KernelNode.Wallet.History
import KernelNode.Wallet.KeysFile
import KernelNode.Wallet.Replay
import KernelNode.Net.Wakeups
import KernelNode.Node.PeersFile
