import RustyCore.BuddyCoalescing
import RustyCore.PreemptionFence
import RustyCore.StubRefinement
import RustyCore.ContextSwitch
import RustyCore.RoundRobinFairness
import RustyCore.CfsStarvation
import RustyCore.CfsArrival
import RustyCore.CfsSleepers
import RustyCore.TaskLedger
import RustyCore.OneStep
import RustyCore.EqualWeights
import RustyCore.SlotRelease
import RustyCore.FrameExhaustion
import RustyCore.PromotionGate
import RustyCore.ConfigSections
import RustyCore.StackLayout
import RustyCore.BootSequence
import RustyCore.InterruptControllers
import RustyCore.DemoSession
