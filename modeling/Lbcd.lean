import Lbcd.Interaction.Program
import Lbcd.Protocol
import Lbcd.Calls
import Lbcd.Modules.Ntp
import Lbcd.Measure
import Lbcd.Weight
import Lbcd.Daemon
import Lbcd.Requests
import Lbcd.Runs
import Lbcd.WeightInit
import Lbcd.Probes
import Lbcd.FailSafe
import Lbcd.Host
import Lbcd.LoadWeight
import Lbcd.Sentinel
import Lbcd.Replies
import Lbcd.Versions
import Lbcd.Exchanges
import Lbcd.Answers
import Lbcd.Serving
import Lbcd.Resets
import Lbcd.Usage
import Lbcd.Client
import Lbcd.Helper
import Lbcd.Network
import Lbcd.Indeterminate
import Lbcd.Users
import Lbcd.Lookups
import Lbcd.Ports
import Lbcd.Uneventful
import Lbcd.Directory
import Lbcd.Increments
import Lbcd.Descriptors
import Lbcd.Options
import Lbcd.TestMode
import Lbcd.LoadSteps
import Lbcd.TmpFull
import Lbcd.Interaction.Firsts
import Lbcd.UserCounts
import Lbcd.Monlist
import Lbcd.Arrivals
import Lbcd.Banners
import Lbcd.HttpStatus
import Lbcd.Reaping
import Lbcd.Interaction.Scan
import Lbcd.HelperLine
import Lbcd.Independence
import Lbcd.FixedWeights
import Lbcd.Traffic
import Lbcd.Lifecycle
import Lbcd.Interaction.Search
import Lbcd.Connect
import Lbcd.Sockets
import Lbcd.Interaction.Transfer
import Lbcd.Transfers
import Lbcd.Channels
import Lbcd.Deliveries
import Lbcd.Interaction.Heap
import Lbcd.Interaction.Pieces
import Lbcd.Vectors
import Lbcd.Splits
import Lbcd.Pools
import Lbcd.Joins
import Lbcd.Cvectors
import Lbcd.Interaction.Effects
import Lbcd.Memory
import Lbcd.Leaks
import Lbcd.Interaction.Numerals
import Lbcd.Interaction.Masks
import Lbcd.InetAton
import Lbcd.Waiting
import Lbcd.Addresses
import Lbcd.Compatibility
