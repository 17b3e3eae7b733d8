import Snert.Proofs.ReplyBounds
import Snert.Proofs.ReplyDecode
import Snert.Proofs.SpfFamilies
import Snert.Proofs.MimeEncoding
import Snert.Proofs.MimeIdentity
import Snert.Proofs.MimeMultipart
import Snert.Proofs.MimeCounters
import Snert.Proofs.MimeBrackets
import Snert.Proofs.MimeDelimiters
import Snert.Proofs.QuestionEncoding
import Snert.Proofs.RootResolution
import Snert.Proofs.NetworkText
import Snert.Proofs.SpfDispatch
import Snert.Proofs.DkimHeaderRelaxed
import Snert.Proofs.TldLevels
import Snert.Proofs.FileMapRoundTrip
import Snert.Proofs.SmdbLookup
import Snert.Proofs.DnsListed
import Snert.Proofs.HttpPieces
import Snert.Proofs.UriTokens
import Snert.Proofs.SmtpTransparent
import Snert.Proofs.FormBounds
import Snert.Proofs.FormRoundTrip
import Snert.Proofs.ReservedRanges
import Snert.Proofs.ChunkDecode
import Snert.Proofs.JsonLabels
import Snert.Proofs.PropertiesSurvive
import Snert.Proofs.TemplateExpansion
import Snert.Proofs.UriComposition
import Snert.Proofs.SearchJumps
import Snert.Proofs.TreeDeleteExact
import Snert.Proofs.StringHashFiniteMap
import Snert.Proofs.Base64Agree
import Snert.Proofs.ReverseNames
import Snert.Proofs.InnerPathPair
import Snert.Proofs.PathLengths
import Snert.Proofs.SoaTail
import Snert.Proofs.MacroTransformers
import Snert.Proofs.MimeQuoted
import Snert.Proofs.MimeLossless
import Snert.Proofs.CloneFaithful
import Snert.Proofs.NameCopied
import Snert.Proofs.QueryTrace
import Snert.Proofs.TextStrings
import Snert.Proofs.ClassStays
import Snert.Proofs.TextQuoting
import Snert.Proofs.TokenRoundTrip
import Snert.Proofs.TokenSplitCursors
import Snert.Proofs.BigIntText
import Snert.Proofs.TwosComplement
import Snert.Proofs.VectorRanges
import Snert.Proofs.ActiveHosts
import Snert.Proofs.BucketRate
import Snert.Proofs.CalendarExact
import Snert.Proofs.FetchReplies
import Snert.Proofs.MilterReplies
import Snert.Proofs.RateWindow
import Snert.Proofs.Utf8RoundTrip
import Snert.Proofs.MulticastPackets
import Snert.Proofs.TextJoining
import Snert.Proofs.SpfRuns
import Snert.Proofs.ListsInPlace
import Snert.Proofs.CountersConverge
