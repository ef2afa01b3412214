import Ipxe.Analysis.Ipv6ExtensionHeaders
import Ipxe.Analysis.X509CheckName
import Ipxe.Analysis.CmsVerification
import Ipxe.Analysis.IscsiLogin
import Ipxe.Analysis.TlsAuthentication
import Ipxe.Analysis.SanOverlay
import Ipxe.Analysis.DriverBlob
import Ipxe.Analysis.DriverOrder
import Ipxe.Analysis.DeflateCompleteness
import Ipxe.Analysis.TimeConversion
import Ipxe.Analysis.DnsComparison
import Ipxe.Analysis.DnsEncoding
import Ipxe.Analysis.UriCodec
import Ipxe.Analysis.TftpPlacement
import Ipxe.Analysis.Asn1Integers
import Ipxe.Analysis.GenericSettings
import Ipxe.Analysis.NumericSettings
import Ipxe.Analysis.Base64Codec
import Ipxe.Analysis.FragmentReassembly
import Ipxe.Analysis.ReplacedFileAccess
import Ipxe.Analysis.GcmMultiplication
import Ipxe.Analysis.GcmRoundTrip
import Ipxe.Analysis.ScsiAddressing
import Ipxe.Analysis.Int13Geometry
import Ipxe.Analysis.MtftpBitmap
import Ipxe.Analysis.HeapAccounting
import Ipxe.Analysis.TcpStates
import Ipxe.Analysis.TcpHeaders
import Ipxe.Analysis.InternetChecksum
import Ipxe.Analysis.RsaPadding
import Ipxe.Analysis.Ipv6Addresses
import Ipxe.Analysis.Sha256Streaming
import Ipxe.Analysis.GrubDigest
import Ipxe.Analysis.SettingsExpansion
import Ipxe.Analysis.LineBuffering
import Ipxe.Analysis.PngInterlacing
import Ipxe.Analysis.PeerblkQueue
