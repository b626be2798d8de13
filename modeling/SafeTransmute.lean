import SafeTransmute.Foundation.Runtime
import SafeTransmute.Foundation.Memory
import SafeTransmute.Foundation.Vec
import SafeTransmute.Foundation.Stored
import SafeTransmute.Checks
import SafeTransmute.Base
import SafeTransmute.Full
import SafeTransmute.View
import SafeTransmute.Single
import SafeTransmute.VecTransmute
