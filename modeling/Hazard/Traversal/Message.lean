import Hazard.Decimal.Text
import Hazard.Traversal.Error
/-!
# Messages of explorations that ended early
-/

namespace Hazard

def TraversalError.message : TraversalError Float → String
  | .exhausted error => error.message
  | .deadlock origin => "deadlock in " ++ origin.describe ++ ": no valid outgoing transitions"
  | .invalidDistribution origin sum =>
      "probabilities leaving " ++ origin.describe ++ " sum to " ++ NumberStyle.message.text sum
        ++ " instead of 1"
  | .model origin _ error => "model error in " ++ origin.describe ++ ": " ++ error.message
  | .propositionLimit count =>
      s!"model declares {count} atomic propositions, at most 64 are supported"
  | .formula error => error.message
  | .misuse cause => cause.message

end Hazard
