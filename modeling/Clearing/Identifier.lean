import Clearing.Table

/-!
The names of markets, accounts and positions, and the two sides of a market.

Traders and privileged callers share the account numbers.  Position numbers are handed out by the
ledger, counting from one.
-/

namespace Clearing

/-- A market. -/
@[ext]
structure MarketId where
  val : UInt32
deriving DecidableEq

/-- A trader or a privileged caller. -/
@[ext]
structure AccountId where
  val : UInt64
deriving DecidableEq

/-- A position. -/
@[ext]
structure PositionId where
  val : Nat
deriving DecidableEq

instance : Key MarketId :=
  ⟨fun m => m.val.toNat, fun h => MarketId.ext (UInt32.toNat_inj.1 h)⟩

instance : Key AccountId :=
  ⟨fun a => a.val.toNat, fun h => AccountId.ext (UInt64.toNat_inj.1 h)⟩

instance : Key PositionId :=
  ⟨fun p => p.val, fun h => PositionId.ext h⟩

/-- How a market is named in messages. -/
def MarketId.text (m : MarketId) : String :=
  s!"MarketId({m.val})"

/-- How an account is named in messages. -/
def AccountId.text (a : AccountId) : String :=
  s!"AccountId({a.val})"

/-- How a position is named in messages. -/
def PositionId.text (p : PositionId) : String :=
  s!"PositionId({p.val})"

/-- A long position gains when the price rises, a short one when it falls. -/
inductive Side where
  | long
  | short
deriving DecidableEq

namespace Side

/-- The other side of the market. -/
def opposite : Side → Side
  | long => short
  | short => long

/-- The direction of the gain when the price rises. -/
def sign : Side → Int
  | long => 1
  | short => -1

/-- The side as it appears in messages. -/
def text : Side → String
  | long => "LONG"
  | short => "SHORT"

end Side

/-- One side of one market. -/
@[ext]
structure Lane where
  market : MarketId
  side : Side
deriving DecidableEq

/-- The place of a side within its market. -/
def Side.index : Side → Nat
  | .long => 0
  | .short => 1

theorem Side.index_lt (s : Side) : s.index < 2 := by
  cases s <;> decide

theorem Side.index_inj {s t : Side} (h : s.index = t.index) : s = t := by
  cases s <;> cases t <;> simp_all [Side.index]

instance : Key Lane where
  rank l := 2 * l.market.val.toNat + l.side.index
  rank_inj := by
    rintro ⟨⟨m⟩, s⟩ ⟨⟨n⟩, t⟩ h
    simp only at h
    have hs := s.index_lt
    have ht := t.index_lt
    have hm : m = n := UInt32.toNat_inj.1 (by omega)
    have hside : s = t := Side.index_inj (by omega)
    rw [hm, hside]

end Clearing
