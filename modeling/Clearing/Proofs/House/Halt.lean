import Clearing.Proofs.House.Isolation
import Clearing.Proofs.Instant

/-!
Markets that are halted.

A tripped breaker halts its market until a reset is accepted, which the cooldown prevents for a
while.  In the meantime other markets go on, everybody may call, and whoever operates the
safeguards may trip the breaker again or change the cooldown.  Nothing of this reaches the halted
market: `halted_unchanged` says so of every run that begins while the breaker is tripped and in
which no reset of it is accepted.

The run is followed one step at a time.  A step leaves the market as it is (`Acts.sameIn`) and the
breaker as it was tripped (`Safeguards.perform_keeps`), so the next step begins as this one did.
-/

namespace Clearing

namespace Safeguards

variable {s : Safeguards} {market : MarketId} {breaker : Breaker}

theorem isTripped_iff :
    s.isTripped market = true ↔ ∃ breaker, s.breaker? market = some breaker := by
  unfold isTripped Table.contains breaker?
  exact Option.isSome_iff_exists

/-- The first trip of a breaker is the one it remembers. -/
theorem breaker?_trip (hfree : s.isTripped market = false) (reason : HaltReason) (now : Instant) :
    (s.trip market reason now).breaker? market = some ⟨reason, now⟩ := by
  unfold trip
  rw [hfree]
  exact Table.get?_insert_self ..

/-- No operation changes a tripped breaker, but for a reset that is accepted. -/
theorem perform_keeps (hbreaker : s.breaker? market = some breaker) {op : Operation}
    (hunreset : ∀ now, op = .reset market now → (s.perform op).1 = false) :
    (s.perform op).2.breaker? market = some breaker := by
  cases op with
  | pause activity => exact hbreaker
  | unpause activity => exact hbreaker
  | setCooldown millis => exact hbreaker
  | trip other reason now =>
    show (s.trip other reason now).breaker? market = some breaker
    unfold trip
    by_cases htripped : s.isTripped other = true
    · rw [if_pos htripped]
      exact hbreaker
    · rw [if_neg htripped]
      have hother : market ≠ other := by
        rintro rfl
        exact htripped (isTripped_iff.2 ⟨breaker, hbreaker⟩)
      exact (Table.get?_insert_of_ne _ _ hother).trans hbreaker
  | reset other now =>
    by_cases hother : market = other
    · subst hother
      have hdeclined : (s.reset market now).1 = false := hunreset now rfl
      show (s.reset market now).2.breaker? market = some breaker
      unfold reset at hdeclined ⊢
      split at hdeclined
      · cases hdeclined
      · rename_i hcan
        rw [if_neg hcan]
        exact hbreaker
    · show (s.reset other now).2.breaker? market = some breaker
      unfold reset
      split
      · exact (Table.get?_erase_of_ne _ hother).trans hbreaker
      · exact hbreaker

/-- A reset is declined for as long as the cooldown since the first trip lasts. -/
theorem reset_declined (hbreaker : s.breaker? market = some breaker) {now : Instant}
    (hcooldown : 0 ≤ s.cooldown.toInt)
    (hsoon : now.millis.toInt - breaker.triggeredAt.millis.toInt < s.cooldown.toInt) :
    (s.reset market now).1 = false := by
  have hshort : (breaker.triggeredAt.millisUntil now).toInt < s.cooldown.toInt :=
    Instant.saturate_lt hcooldown hsoon
  have hcannot : s.canReset market now = false := by
    unfold canReset
    rw [hbreaker]
    refine decide_eq_false fun hlong => ?_
    rw [Int64.le_iff_toInt_le] at hlong
    omega
  unfold reset
  rw [hcannot]
  rfl

end Safeguards

namespace House

/-! ### Steps while a market is halted -/

/-- What can happen while a market is halted: a call is made, or the safeguards are operated and
no reset of the market is accepted.  Nobody puts other safeguards in their place. -/
inductive HaltedStep (market : MarketId) (h : House) : House → Prop
  | called {call : Call} {answered : Except HouseError Reply} {next : House}
      (kept : ∀ given, call ≠ .replaceSafeguards given)
      (performed : h.perform call = .ok (answered, next)) : HaltedStep market h next
  | operated {op : Safeguards.Operation}
      (unreset : ∀ now, op = .reset market now → (h.safeguards.perform op).1 = false) :
    HaltedStep market h { h with safeguards := (h.safeguards.perform op).2 }

/-- Such steps one after the other. -/
abbrev HaltedRun (market : MarketId) : House → House → Prop :=
  Relation.ReflTransGen (HaltedStep market)

variable {start h next last : House} {market : MarketId} {breaker : Breaker} {ts : List Touch}

theorem Acts.safeguards {call : Call} {reply : Reply} (hacts : Acts h call reply next)
    (hkept : ∀ given, call ≠ .replaceSafeguards given) : next.safeguards = h.safeguards := by
  cases hacts with
  | supplied _ guarded => exact guarded hkept
  | _ => rfl

/-- A house with a halted market, as it has to be for the next step to leave the market alone. -/
structure HaltedAt (market : MarketId) (breaker : Breaker) (h : House) : Prop where
  synced : ∃ ts, h.Synced ts
  tripped : h.safeguards.breaker? market = some breaker

theorem HaltedAt.step (hhalted : h.HaltedAt market breaker) (hstep : HaltedStep market h next) :
    next.HaltedAt market breaker ∧ SameIn market h next := by
  obtain ⟨⟨ts, hsynced⟩, hbreaker⟩ := hhalted
  cases hstep with
  | called hkept hperformed =>
    rcases orStay_eq_ok.1 hperformed with ⟨reply, -, hanswer⟩ | ⟨_, -, -, rfl⟩
    · have hacts := answer_acts hanswer
      refine ⟨⟨⟨_, hsynced.moves hacts.moves⟩, ?_⟩,
        hacts.sameIn hsynced (Safeguards.isTripped_iff.2 ⟨breaker, hbreaker⟩)⟩
      rw [hacts.safeguards hkept]
      exact hbreaker
    · exact ⟨⟨⟨ts, hsynced⟩, hbreaker⟩, .refl market next⟩
  | operated hunreset =>
    exact ⟨⟨⟨ts, hsynced.indexed, hsynced.mirrors⟩, Safeguards.perform_keeps hbreaker hunreset⟩,
      .idle rfl rfl rfl⟩

theorem HaltedAt.run (hhalted : h.HaltedAt market breaker) (hrun : HaltedRun market h last) :
    last.HaltedAt market breaker ∧ SameIn market h last := by
  induction hrun with
  | refl => exact ⟨hhalted, .refl market h⟩
  | tail _ hstep ih =>
    obtain ⟨hbefore, hsame⟩ := ih
    obtain ⟨hafter, hstill⟩ := hbefore.step hstep
    exact ⟨hafter, hsame.trans hstill⟩

/-! ### Runs while a market is halted -/

/-- The breaker is as it was tripped, the market as it was then, and no reset is accepted before
the cooldown since the trip is over. -/
structure Frozen (market : MarketId) (breaker : Breaker) (h last : House) : Prop where
  tripped : last.safeguards.breaker? market = some breaker
  unchanged : SameIn market h last
  declined : ∀ now : Instant, 0 ≤ last.safeguards.cooldown.toInt →
    now.millis.toInt - breaker.triggeredAt.millis.toInt < last.safeguards.cooldown.toInt →
    (last.safeguards.reset market now).1 = false

/-- **A halted market stands still.**  In every house that a run of calls reaches, a breaker that
was not tripped remembers the trip that comes first; and from a house whose breaker is tripped,
every run in which no reset is accepted leaves the market as it is. -/
theorem halted_unchanged (hfounded : start.Founded) {calls : List Call}
    (hreached : start.run calls = .ok h) (market : MarketId) :
    (∀ reason now, h.safeguards.isTripped market = false →
      (h.safeguards.trip market reason now).breaker? market = some ⟨reason, now⟩) ∧
    ∀ breaker last, h.safeguards.breaker? market = some breaker → HaltedRun market h last →
      Frozen market breaker h last := by
  refine ⟨fun reason now hfree => Safeguards.breaker?_trip hfree reason now, ?_⟩
  intro breaker last hbreaker hrun
  have hhalted : h.HaltedAt market breaker := ⟨⟨_, hfounded.synced.run hreached⟩, hbreaker⟩
  obtain ⟨hlast, hsame⟩ := hhalted.run hrun
  exact ⟨hlast.tripped, hsame, fun now hcooldown hsoon =>
    Safeguards.reset_declined hlast.tripped hcooldown hsoon⟩

/-- Two markets with the same terms and a gaining position in each; then the first is halted. -/
def sampleHalt : List Call :=
  [.configureMargin ⟨9⟩ ⟨1⟩ .standard,
    .configureMargin ⟨9⟩ ⟨2⟩ .standard,
    .configureDeleverage ⟨9⟩ ⟨2⟩ ⟨100⟩ 5 0,
    .openPosition ⟨9⟩ (Ledger.sampleOrder ⟨1⟩ .long (.ofUInt32 2)),
    .openPosition ⟨9⟩ { Ledger.sampleOrder ⟨1⟩ .long (.ofUInt32 3) with market := ⟨2⟩ },
    .replacePrices ((PriceBook.empty.setPrice ⟨1⟩ (.ofUInt32 110) .epoch).setPrice ⟨2⟩
      (.ofUInt32 110) .epoch),
    .refreshMarket ⟨9⟩ ⟨1⟩,
    .refreshMarket ⟨9⟩ ⟨2⟩,
    .replaceSafeguards ((Safeguards.clear 1000).trip ⟨1⟩ (.manual "halt") .epoch)]

/-- While the first market is halted, the position of the same owner in the second is taken, a
second trip is not remembered, and an early reset is declined. -/
theorem halted_unchanged_elsewhere :
    ∃ h mid, sampleHouse.run sampleHalt = .ok h ∧
      h.safeguards.breaker? ⟨1⟩ = some ⟨.manual "halt", .epoch⟩ ∧
      h.perform (.executeDeleverage ⟨9⟩ ⟨⟨2⟩, ⟨7⟩, .short, .ofUInt32 3, .ofUInt32 110⟩)
        = .ok mid ∧
      (h.queue.length ⟨⟨1⟩, .long⟩ = 1 ∧ h.queue.length ⟨⟨2⟩, .long⟩ = 1 ∧
        mid.2.ledger.position? ⟨2⟩ = none) ∧
      Frozen ⟨1⟩ ⟨.manual "halt", .epoch⟩ h
        { mid.2 with
          safeguards := (mid.2.safeguards.perform (.trip ⟨1⟩ (.manual "again") ⟨5⟩)).2 } := by
  obtain ⟨h, hrun, htest⟩ := exists_of_succeedsWith
    (fun h : House => decide (h.safeguards.breaker? ⟨1⟩ = some ⟨.manual "halt", .epoch⟩ ∧
        h.queue.length ⟨⟨1⟩, .long⟩ = 1 ∧ h.queue.length ⟨⟨2⟩, .long⟩ = 1) &&
      succeedsWith (fun mid : Except HouseError Reply × House =>
          decide (mid.2.ledger.position? ⟨2⟩ = none))
        (h.perform (.executeDeleverage ⟨9⟩ ⟨⟨2⟩, ⟨7⟩, .short, .ofUInt32 3, .ofUInt32 110⟩)))
    (x := sampleHouse.run sampleHalt) (by decide +kernel)
  rw [Bool.and_eq_true] at htest
  obtain ⟨hfirst, htest⟩ := htest
  obtain ⟨hbreaker, hone, htwo⟩ := of_decide_eq_true hfirst
  obtain ⟨mid, hmid, hgone⟩ := exists_of_succeedsWith _ htest
  have hhalted : HaltedRun ⟨1⟩ h { mid.2 with
      safeguards := (mid.2.safeguards.perform (.trip ⟨1⟩ (.manual "again") ⟨5⟩)).2 } :=
    .tail (.single (.called (by nofun) hmid)) (.operated nofun)
  exact ⟨h, mid, hrun, hbreaker, hmid, ⟨hone, htwo, of_decide_eq_true hgone⟩,
    (halted_unchanged (.empty _ _ _ _) hrun ⟨1⟩).2 _ _ hbreaker hhalted⟩

end House

end Clearing
