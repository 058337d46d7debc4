import Dioptron.Allowances
import Dioptron.AuditPages
import Dioptron.Charges
import Dioptron.Copying
import Dioptron.Handshake
import Dioptron.KeyLayout
import Dioptron.Narrowing
import Dioptron.Recoveries
import Dioptron.Refinement
import Dioptron.RekeyCounts
import Dioptron.Repeats
import Dioptron.Replays
import Dioptron.Retirements
import Dioptron.Sealing
import Dioptron.UlidText
import Dioptron.Upstream
