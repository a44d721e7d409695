import DromozoaFuse.Manager.MainStatements
import DromozoaFuse.Manager.PoolStatements
import DromozoaFuse.Manager.Progress
import DromozoaFuse.Session.Progress
import DromozoaFuse.Session.PoolProgress
import DromozoaFuse.Session.Serial
import DromozoaFuse.Operations.Handles
import DromozoaFuse.Operations.Reports
import DromozoaFuse.Convert.Theorems
import DromozoaFuse.Convert.Attributes
import DromozoaFuse.Operations.Results
import DromozoaFuse.Operations.Structs
import DromozoaFuse.Operations.Rooting
import DromozoaFuse.Operations.Filling
import DromozoaFuse.Operations.Refinement
import DromozoaFuse.Session.Linear
import DromozoaFuse.Session.Atomic
import DromozoaFuse.Session.PoolService
import DromozoaFuse.Mount.Main
import DromozoaFuse.Mount.Theorems
