import Secrecy.Chart
import Secrecy.Knowledge.Json
import Secrecy.Knowledge.Summary
import Secrecy.Main
import Secrecy.Proofs.Chart.Quoting
import Secrecy.Proofs.Chart.Reading
import Secrecy.Proofs.Json
import Secrecy.Proofs.Command.Exit
import Secrecy.Proofs.Grammar.Height
import Secrecy.Proofs.Grammar.Refusal
import Secrecy.Proofs.Knowledge.Dominance
import Secrecy.Proofs.Knowledge.History
import Secrecy.Proofs.Knowledge.Misshapen
import Secrecy.Proofs.Knowledge.Options
import Secrecy.Proofs.Knowledge.Renaming
import Secrecy.Proofs.Knowledge.Rounds
import Secrecy.Proofs.Mentions
import Secrecy.Proofs.Positions
import Secrecy.Proofs.Protocol.Drawing
import Secrecy.Proofs.Protocol.Form
import Secrecy.Proofs.Quotation
import Secrecy.Proofs.Scope.FirstFault
import Secrecy.Proofs.Scope.KeyUses
import Secrecy.Proofs.Scope.Table
import Secrecy.Proofs.Strays
import Secrecy.Proofs.Token.Spacing
import Secrecy.Protocol.Drawing
import Secrecy.Protocol.Form
import Secrecy.Protocol.Json
import Secrecy.Source
import Secrecy.Text.Utf8
import Secrecy.Token.Listing
