import SpeechStack.Speech.Guard
import SpeechStack.Speech.Shift
import SpeechStack.Speech.Channels
import SpeechStack.Speech.Resync
import SpeechStack.Speech.Split
import SpeechStack.Speech.Reach
import SpeechStack.Speech.Refill
import SpeechStack.Speech.Request
import SpeechStack.Speech.Read1
import SpeechStack.Pool.Queue
import SpeechStack.Pool.Release
import SpeechStack.Pool.Hand
import SpeechStack.Pool.Stranding
import SpeechStack.Store.Rotation
import SpeechStack.Store.Shutdown
import SpeechStack.Store.Isolation
import SpeechStack.Libutils.Llist
import SpeechStack.Libutils.Fifo
import SpeechStack.Display.Wide
import SpeechStack.Display.Payload
import SpeechStack.Display.Sizes
import SpeechStack.Tinyalsa.Transfer
import SpeechStack.Tinyalsa.Session
import SpeechStack.Tinyalsa.Mixer
import SpeechStack.Tinyalsa.Control
import SpeechStack.Libutils.Listnode
import SpeechStack.Store.Remove
import SpeechStack.Speech.Lifecycle
import SpeechStack.Tools.Wav
