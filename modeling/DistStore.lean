import DistStore.Address
import DistStore.Batch
import DistStore.Connections
import DistStore.Counters
import DistStore.DataCgi
import DistStore.Descriptors
import DistStore.Extraction
import DistStore.FieldSizes
import DistStore.Framing
import DistStore.HashFill
import DistStore.HmsetRoom
import DistStore.JsonEscapes
import DistStore.JsonLookups
import DistStore.JsonMinifyParse
import DistStore.JsonNodeBuild
import DistStore.JsonPool
import DistStore.JsonSafety
import DistStore.Listing
import DistStore.LogDirs
import DistStore.LogMessages
import DistStore.NameIsolation
import DistStore.Numbers
import DistStore.PageJson
import DistStore.PageRows
import DistStore.PageTree
import DistStore.ProcessTree
import DistStore.QueryLookup
import DistStore.RecordedFiles
import DistStore.ReplacedText
import DistStore.RequestIsolation
import DistStore.RowIsolation
import DistStore.Service
import DistStore.Suffixes
import DistStore.TempFile
