import Duckcoin.Breadcrumbs
import Duckcoin.SpendTheorems
import Duckcoin.Serialize
import Duckcoin.SerializeTheorems
import Duckcoin.ViewCache
import Duckcoin.BatchWriteTheorems
import Duckcoin.Stack
import Duckcoin.StackInvariants
import Duckcoin.StackRefinement
import Duckcoin.FlushTheorems
import Duckcoin.InputsTheorems
import Duckcoin.PriorityTheorems
import Duckcoin.FeeRate
import Duckcoin.StackInputs
import Duckcoin.FreshTheorems
import Duckcoin.TipTheorems
