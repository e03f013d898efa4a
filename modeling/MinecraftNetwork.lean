import MinecraftNetwork.Message.HeaderSize
import MinecraftNetwork.TSDeque.Wakeup
import MinecraftNetwork.TSDeque.Deadlock
import MinecraftNetwork.TSDeque.Linearizable
import MinecraftNetwork.Endpoint.WriteOrder
import MinecraftNetwork.Endpoint.Challenge
import MinecraftNetwork.Endpoint.Feed
import MinecraftNetwork.Endpoint.Outgoing
import MinecraftNetwork.Endpoint.Buffers
import MinecraftNetwork.Message.ByteStack
import MinecraftNetwork.PollMessages.Prefix
import MinecraftNetwork.PollMessages.Refinement
import MinecraftNetwork.Link.Agreement
import MinecraftNetwork.Link.Progress
import MinecraftNetwork.DedicatedServer.Ownership
import MinecraftNetwork.DedicatedServer.Disconnection
import MinecraftNetwork.DedicatedServer.Broadcast
import MinecraftNetwork.DedicatedServer.Reentrancy
import MinecraftNetwork.DedicatedServer.Lifecycle
import MinecraftNetwork.DedicatedServer.Farewell
import MinecraftNetwork.DedicatedServer.Demultiplexing
import MinecraftNetwork.DedicatedClient.Loss
import MinecraftNetwork.DedicatedClient.Failure
import MinecraftNetwork.DedicatedClient.Leaving
import MinecraftNetwork.DedicatedClient.Turns
import MinecraftNetwork.DedicatedClient.Merging
import MinecraftNetwork.Client.Ending
import MinecraftNetwork.Client.Port
import MinecraftNetwork.Relay.Overflow
import MinecraftNetwork.Relay.RoundTrip
import MinecraftNetwork.Star.Channels
import MinecraftNetwork.Endpoint.Replay
