import SwarmBridge.Recovery.Exclusive
import SwarmBridge.Recovery.Retention
import SwarmBridge.Recovery.Wakeups
import SwarmBridge.Recovery.ReplayPace
import SwarmBridge.Delivery.UnlimitedSend
import SwarmBridge.Delivery.ReceiveTopic
import SwarmBridge.Delivery.RateLimited
import SwarmBridge.Delivery.Latest
import SwarmBridge.Delivery.Isolation
import SwarmBridge.Delivery.Bandwidth
import SwarmBridge.Delivery.Conservation
import SwarmBridge.Delivery.AtMostOnce
import SwarmBridge.Delivery.ReplayedBatch
import SwarmBridge.Wire.Decoding
import SwarmBridge.Control.TriggerFault
import SwarmBridge.Control.RoundTrip
import SwarmBridge.Control.FaultSpan
import SwarmBridge.BridgeNode.FrequencyCap
import SwarmBridge.Delivery.Eviction
import SwarmBridge.Delivery.TokenWait
import SwarmBridge.Config.Configured
import SwarmBridge.Swarm.EndToEnd
import SwarmBridge.Delivery.Served
import SwarmBridge.Recovery.StopSend
import SwarmBridge.Control.Answered
import SwarmBridge.Delivery.GetsOut
import SwarmBridge.Recovery.Available
import SwarmBridge.Delivery.LeftBehind
import SwarmBridge.Control.ReadBack
import SwarmBridge.Recovery.StartupFault
import SwarmBridge.Delivery.EndlessWindows
import SwarmBridge.Foundation.Component
import SwarmBridge.Swarm.Delivers
