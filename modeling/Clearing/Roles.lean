import Clearing.Identifier

/-!
Who may do what.

Each entry of the clearing house asks for one role.  Roles are granted to accounts one by one and
do not include each other.
-/

namespace Clearing

/-- A privilege. -/
inductive Role where
  | tradingEntry
  | liquidator
  | riskManager
  | keeper
deriving DecidableEq

namespace Role

/-- The role as it appears in messages. -/
def text : Role → String
  | tradingEntry => "trading-entry"
  | liquidator => "liquidator"
  | riskManager => "risk-manager"
  | keeper => "keeper"

/-- The place of a role among all. -/
def index : Role → Nat
  | tradingEntry => 0
  | liquidator => 1
  | riskManager => 2
  | keeper => 3

end Role

theorem Role.index_inj {a b : Role} (h : a.index = b.index) : a = b := by
  cases a <;> cases b <;> simp_all [Role.index]

instance : Key Role := ⟨Role.index, Role.index_inj⟩

/-- The holders of each role. -/
structure Roles where
  grants : Table Role (KeySet AccountId)
deriving DecidableEq

namespace Roles

/-- Nobody holds a role. -/
def empty : Roles := ⟨.empty⟩

/-- The accounts with a role. -/
def holderSet (r : Roles) (role : Role) : KeySet AccountId :=
  (r.grants.get? role).getD .empty

/-- The accounts with a role, ascending. -/
def holders (r : Roles) (role : Role) : List AccountId :=
  (r.holderSet role).keys

/-- Whether an account has a role. -/
def holds (r : Roles) (role : Role) (account : AccountId) : Bool :=
  (r.holderSet role).contains account

/-- Gives a role to an account. -/
def grant (r : Roles) (role : Role) (account : AccountId) : Roles :=
  ⟨r.grants.insert role ((r.holderSet role).add account)⟩

/-- Takes a role from an account, and says whether it had it. -/
def revoke (r : Roles) (role : Role) (account : AccountId) : Bool × Roles :=
  if r.holds role account then
    (true, ⟨r.grants.insert role ((r.holderSet role).erase account)⟩)
  else (false, r)

end Roles

end Clearing
