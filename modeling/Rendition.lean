import Rendition.Cache.Basic
import Rendition.Cache.Clock
import Rendition.Cache.Memory
import Rendition.Cache.Remote
import Rendition.Cache.Reply
import Rendition.Cache.Unreliable
import Rendition.Catalog
import Rendition.Change
import Rendition.Codec.Basic
import Rendition.Codec.Execution
import Rendition.Codec.Sketch
import Rendition.Config
import Rendition.Content
import Rendition.Directive.Basic
import Rendition.Directive.Chain
import Rendition.Engine
import Rendition.Error
import Rendition.Fallbacks
import Rendition.Files.Basic
import Rendition.Files.Disk
import Rendition.Files.Local
import Rendition.Files.Memory
import Rendition.Files.Path
import Rendition.Files.Tree
import Rendition.Files.Unreliable
import Rendition.Http.Response
import Rendition.Http.Router
import Rendition.Http.Target
import Rendition.Json.Numeral
import Rendition.Json.Reader
import Rendition.Json.Value
import Rendition.Log
import Rendition.Machine
import Rendition.Main
import Rendition.MediaType
import Rendition.Net.Address
import Rendition.Net.Query
import Rendition.Net.Segments
import Rendition.Net.StoreAddress
import Rendition.Options
import Rendition.OsError
import Rendition.Picture.ArbitraryMap
import Rendition.Picture.Bits
import Rendition.Picture.Bmp
import Rendition.Picture.Canvas
import Rendition.Picture.Checksum
import Rendition.Picture.Codec
import Rendition.Picture.Deflate
import Rendition.Picture.Encoded
import Rendition.Picture.Farbfeld
import Rendition.Picture.Fields
import Rendition.Picture.Format
import Rendition.Picture.Gif
import Rendition.Picture.Handle
import Rendition.Picture.Jpeg
import Rendition.Picture.Lzw
import Rendition.Picture.Netpbm
import Rendition.Picture.Png
import Rendition.Picture.Qoi
import Rendition.Picture.Reader
import Rendition.Proofs.Cuts
import Rendition.Proofs.Text.Joining
import Rendition.RequestPath
import Rendition.Resolution
import Rendition.Sampler
import Rendition.Service
import Rendition.Staleness
import Rendition.Startup
import Rendition.Text.Blank
import Rendition.Text.Case
import Rendition.Text.Decimal
import Rendition.Text.Hex
import Rendition.Text.Percent
import Rendition.Text.Pieces
import Rendition.Text.Real
import Rendition.Text.Visible
import Rendition.Time.Calendar
import Rendition.Time.HttpDate
import Rendition.Time.IsoDate
import Rendition.Time.Timestamp
import Rendition.Validator
import Rendition.Word
import Rendition.Proofs.Lookup
import Rendition.Proofs.Files
import Rendition.Proofs.Serving
import Rendition.Proofs.Levels
import Rendition.Proofs.Staleness
import Rendition.Proofs.Originals
import Rendition.Proofs.Derivation
import Rendition.Proofs.Provenance
import Rendition.Proofs.Freshness
import Rendition.Proofs.Sampling
import Rendition.Proofs.Invalidation
import Rendition.Proofs.Sweeping
import Rendition.Proofs.MixedExtensions
import Rendition.Proofs.Interruption
import Rendition.Proofs.Eviction
import Rendition.Proofs.Storing
import Rendition.Proofs.Caching
import Rendition.Proofs.Retention
import Rendition.Proofs.Agreement
import Rendition.Proofs.Transparency
import Rendition.Proofs.Tracing
import Rendition.Proofs.Confinement
import Rendition.Proofs.Cadence
import Rendition.Proofs.Making
import Rendition.Proofs.Repetition
import Rendition.Proofs.Renewal
import Rendition.Proofs.Lineage
import Rendition.Proofs.Modified
import Rendition.Proofs.Quality
import Rendition.Proofs.Bases
import Rendition.Proofs.Ancestry
import Rendition.Proofs.Failures
import Rendition.Proofs.Effects
import Rendition.Proofs.Grammar
import Rendition.Proofs.Execution
import Rendition.Proofs.Growth
import Rendition.Proofs.Removal
import Rendition.Proofs.Holding
import Rendition.Proofs.Expiry
import Rendition.Proofs.NormalForm
import Rendition.Proofs.Text.Utf8
import Rendition.Proofs.Candidates
import Rendition.Proofs.Cropping
import Rendition.Proofs.Animation
import Rendition.Proofs.Calendar
import Rendition.Proofs.HttpDates
import Rendition.Proofs.Settings
import Rendition.Proofs.Headers
import Rendition.Proofs.Descent
import Rendition.Proofs.Validators
