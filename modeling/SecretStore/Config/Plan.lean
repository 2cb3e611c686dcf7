import SecretStore.Config.Settings
import SecretStore.Files

/-!
# The plan of a configuration

`Settings.plan` reads the policy documents and makes the plan of a run. Policies come in the
ascending order of their names, and the first one that cannot be read is the failure.
-/

namespace SecretStore.Config

/-- The failure of a policy document that cannot be read. -/
def unreadable (name path : String) (e : FileError) : Failure :=
  ⟨.notFound, "policy '" ++ name ++ "' document " ++ path ++ ": " ++ e.message⟩

/-- The policies with their documents. -/
def readPolicies (files : Files) : List (String × String) → Except Failure (List Policy)
  | [] => .ok []
  | (name, path) :: rest =>
    match files.readText path with
    | .error e => .error (unreadable name path e)
    | .ok document => (readPolicies files rest).map (⟨name, document⟩ :: ·)

/-- The plan of a configuration. -/
def Settings.plan (s : Settings) (files : Files) : Except Failure Plan :=
  (readPolicies files s.bootstrap.policies).map fun policies =>
    { secretShares := s.bootstrap.secretShares
      secretThreshold := s.bootstrap.secretThreshold
      unsealKeys := s.bootstrap.unsealKeys
      authToken := s.store.authToken
      policies := policies
      keyValue := some s.bootstrap.keyValue
      consul := s.bootstrap.consul }

end SecretStore.Config
