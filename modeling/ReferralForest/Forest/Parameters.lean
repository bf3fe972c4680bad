import ReferralForest.Host
import ReferralForest.Program.Records

/-!
# Changing Parameters

Only the authority may change the parameters of a running engine.
-/

namespace ReferralForest

/-- A request to replace the parameters. -/
structure ParamsUpdate where
  /-- Who asks for it. -/
  sender : String
  /-- The new parameters. -/
  params : Params
  deriving DecidableEq

/-- Replaces the parameters as requested. -/
def Forest.updateParams (host : Host) (request : ParamsUpdate) : Program Unit :=
  if request.sender = host.authority.text then Program.setParams request.params
  else .fail (.unauthorized host.authority.text request.sender)

end ReferralForest
