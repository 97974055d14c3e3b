import Salts.CFlowCoordWait
import Salts.CFlowTemporalInv
import Salts.CFlowRunPoll
import Salts.CFlowDemandRun
import Salts.CFlowParallelRun
import Salts.CFlowPlanEval
import Salts.CFlowChartMicrostep
import Salts.CFlowChartRollback
import Salts.CFlowChartPreorder
import Salts.CFlowMachineCloseRun
import Salts.CFlowActorRun
import Salts.PluginRegistrySafe
import Salts.ServiceHostInv
import Salts.CFlowIoActorSafe
import Salts.CFlowGraphPath
import Salts.CFlowGraphCalls
import Salts.CstlRange
import Salts.CstlHashRun
import Salts.CstlSortStable
import Salts.CstlDeque
import Salts.CmetaFingerprintContent
