import Unpackio.Archive.Agreement
import Unpackio.Archive.Members
import Unpackio.Archive.OutputLimits
import Unpackio.Archive.Opened
import Unpackio.Archive.Reader
import Unpackio.Archive.Refusal
import Unpackio.Archive.Schedule
import Unpackio.Archive.SinkProtocol
import Unpackio.Archive.Volumes
import Unpackio.Deb.Envelope
import Unpackio.Deb.GnuParse
import Unpackio.Deb.PaxExact
import Unpackio.Decode.AesRoundTrip
import Unpackio.Decode.XzTiling
import Unpackio.Execute.Maximum
import Unpackio.Filter.Bcj2Split
import Unpackio.Filter.EveryLength
import Unpackio.Filter.Inverse
import Unpackio.Graph.WellFormed
import Unpackio.Header.RoundTrip
import Unpackio.Path
import Unpackio.Lzma.RoundTrip
import Unpackio.Metadata.Externalizes
import Unpackio.Parser.Budget
import Unpackio.Ppmd.See
import Unpackio.ReadPaths
import Unpackio.Rpm.Package
import Unpackio.Stream.Concatenation
import Unpackio.Stream.Detect
import Unpackio.Stream.LegacyFrame
import Unpackio.Stream.LzwFounded
import Unpackio.Stream.LzwRoundTrip
import Unpackio.UintForms
import Unpackio.Validate.Mapping
import Unpackio.Validate.Scheduled
import Unpackio.Zip.Consistent
import Unpackio.Zip.Streamed
import Unpackio.Zip.Zip64
import Unpackio.Deflate64.RoundTrip
import Unpackio.Arj.FastestExact
import Unpackio.Arj.Prefix
import Unpackio.Jpeg.Coefficients
import Unpackio.Jpeg.RoundTrip
import Unpackio.CrcExact
import Unpackio.WavPack.Reassembly
