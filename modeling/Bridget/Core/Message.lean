import Bridget.Foundation.Text

/-!
# Messages and identities

The fields of a message that the modelled parts of the daemon read, the reference to a project
that messages and orders carry, who wrote a message, the posture of a child, and the names of
agents.
-/

namespace Bridget

open Foundation

structure BridgetMessage where
  (id fromAgent toAgent body : String)
  reply : Bool
  inReplyTo : Option String

structure ProjectReference where
  projectId : String
  bindingGeneration : Nat
  deriving DecidableEq

structure CommunicationProject where
  (host root : String)
  deriving DecidableEq

inductive MessageOrigin where
  | human | agent | routine | system
  deriving DecidableEq

inductive SpawnPosture where
  | discovery | development
  deriving DecidableEq

def validateAgentId (agentId : String) : Bool := isCanonicalUuidV4 agentId

end Bridget
