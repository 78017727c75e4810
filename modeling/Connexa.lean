import Connexa.Autorelay.Availability
import Connexa.Autorelay.Circuits
import Connexa.Autorelay.Dials
import Connexa.Autorelay.Evictions
import Connexa.Autorelay.Handler
import Connexa.Autorelay.Polling
import Connexa.Autorelay.Withdrawals
import Connexa.Keystore.Database.IndexedDb
import Connexa.Keystore.Database.Redb
import Connexa.Keystore.Database.Sqlite
import Connexa.Dns.Bounds
import Connexa.Dns.Reach
import Connexa.Dns.Tails
import Connexa.Dns.Unquote
import Connexa.Keystore.Keychain.Disabled
import Connexa.Support.Discipline
import Connexa.Task.Broadcasts
import Connexa.Keystore.Keychain.Answers
import Connexa.Support.Directory
import Connexa.RequestResponse.EndToEnd
import Connexa.RequestResponse.Handle
import Connexa.RequestResponse.Inbound
import Connexa.RequestResponse.Outbound
import Connexa.PeerStore.Retention
import Connexa.Task.KademliaReplies
import Connexa.Task.KademliaFailures
import Connexa.Task.KademliaRecords
import Connexa.Task.RendezvousAnswers
import Connexa.Task.ListenAddresses
import Connexa.Task.Peerstore
import Connexa.Task.SwarmDisconnects
import Connexa.Keystore.Filesystem.Crashes
import Connexa.Keystore.Filesystem.Accesses
import Connexa.Keystore.Filesystem.Journals
import Connexa.Keystore.Filesystem.Paths
import Connexa.Keystore.Filesystem.Sharing
import Connexa.Keystore.Keychain.Authenticity
import Connexa.Keystore.Keychain.Identities
import Connexa.Keystore.Keychain.Migration
