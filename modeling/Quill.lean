import Quill.Args
import Quill.Memory
import Quill.Serialize
import Quill.Layout
import Quill.Codec
import Quill.RoundTrip
import Quill.Bookkeeping
import Quill.MacroMetadata
import Quill.Logger
import Quill.Backend
import Quill.TransitEvent
import Quill.BoundedQueue
import Quill.Queue
