import Clearing.Proofs.House.Candidates
import Clearing.Proofs.House.Course

/-!
Calls by those who have no right to make them.

A role can be given to an account and taken from it at any time, so whether a caller may make a call
is decided when the call is made.  Every entry asks for its role before anything else
(`answer_gated`), and nothing that comes after the role asks for one again, so a caller without it
learns nothing but that the role is missing.

Main statement: `run_authorized`.  The calls that were made without the role can be taken out of any
run, and neither the house nor the answer to any other call is another.  Calls are made in place
here, where a refused call could leave something behind.
-/

namespace Clearing

namespace House

/-- The role that an entry asks for, and the caller it asks about.  The clock, and what others keep,
can be set by anybody. -/
def Call.entry? : Call → Option (Role × AccountId)
  | .setTime _ | .advanceTime _ | .replaceRoles _ | .replacePrices _ | .replaceSafeguards _ => none
  | .openPosition caller _ | .modifyPosition caller _ _ _ | .closePosition caller _ =>
    some (.tradingEntry, caller)
  | .forceClose caller _ _ _ | .executeDeleverage caller _ => some (.liquidator, caller)
  | .refreshMarket caller _ | .settleFunding caller _ => some (.keeper, caller)
  | .configureMargin caller _ _ | .setMarketActive caller _ _
  | .configureDeleverage caller _ _ _ _ | .toggleDeleverage caller _
  | .configureFunding caller _ _ => some (.riskManager, caller)

/-- Whether the caller has, at this moment, the role that the call asks for. -/
def entitles (h : House) (call : Call) : Bool :=
  match call.entry? with
  | none => true
  | some (role, caller) => h.roles.holds role caller

/-- Whether the caller had the role at that moment. -/
def Moment.entitled (m : Moment) : Bool :=
  m.house.entitles m.call

/-- The calls of a run without those whose caller, when the call is made, lacks the role. -/
def authorized : House → List Call → List Call
  | _, [] => []
  | h, call :: calls =>
    match InPlace.perform h call with
    | .ok (_, next) =>
      if h.entitles call then call :: authorized next calls else authorized next calls
    | .error _ => call :: calls

/-! ### Who is told that a role is missing -/

variable {h next : House} {call : Call} {calls : List Call} {α β : Type}

/-- Whatever is refused is not refused for want of a role. -/
def AsksNoRole (x : Attempt α) : Prop :=
  ∀ role caller, x ≠ .error (.refused (.unauthorized role caller))

namespace AsksNoRole

theorem ok (a : α) : AsksNoRole (.ok a) :=
  nofun

theorem bind {x : Attempt α} {f : α → Attempt β} (hx : AsksNoRole x)
    (hf : ∀ a, AsksNoRole (f a)) : AsksNoRole (x >>= f) := by
  intro role caller hrefused
  rcases bind_eq_error.1 hrefused with hrefused | ⟨a, -, hrefused⟩
  · exact hx role caller hrefused
  · exact hf a role caller hrefused

theorem refusing {ε : Type} {f : ε → HouseError} {x : Except ε α}
    (hf : ∀ e role caller, f e ≠ .unauthorized role caller) : AsksNoRole (refusing f x) := by
  intro role caller hrefused
  obtain ⟨e, -, hcause⟩ := refusing_eq_refused.1 hrefused
  exact hf e role caller hcause

theorem inTermsOf {ε : Type} {f : ε → HouseError} {x : Except (Failure ε) α}
    (hf : ∀ e role caller, f e ≠ .unauthorized role caller) : AsksNoRole (inTermsOf f x) := by
  intro role caller hrefused
  obtain ⟨e, -, hcause⟩ := inTermsOf_eq_refused.1 hrefused
  exact hf e role caller hcause

theorem giving {reply : α → Reply} {x : Attempt (α × House)} (hx : AsksNoRole x) :
    AsksNoRole (answer.giving reply x) := by
  intro role caller hrefused
  cases x with
  | ok a => cases hrefused
  | error e =>
    cases hrefused
    exact hx role caller rfl

theorem requireRunning (activity : Activity) (market : MarketId) :
    AsksNoRole (h.requireRunning activity market) := by
  intro role caller hrefused
  unfold House.requireRunning at hrefused
  split at hrefused
  · cases hrefused
  · split at hrefused <;> cases hrefused

theorem requirePrice (market : MarketId) : AsksNoRole (h.requirePrice market) := by
  intro role caller hrefused
  unfold House.requirePrice at hrefused
  split at hrefused <;> cases hrefused

theorem requirePosition (id : PositionId) : AsksNoRole (h.requirePosition id) :=
  .refusing nofun

end AsksNoRole

/-- A call that asks for a role first, and for none after it. -/
def Gated (h : House) (role : Role) (caller : AccountId) (x : Attempt α) : Prop :=
  ∃ rest, AsksNoRole rest ∧ x = h.requireRole role caller >>= fun _ => rest

theorem Gated.giving {role : Role} {caller : AccountId} {reply : α → Reply}
    {x : Attempt (α × House)} (hx : h.Gated role caller x) :
    h.Gated role caller (answer.giving reply x) := by
  obtain ⟨rest, hrest, rfl⟩ := hx
  refine ⟨answer.giving reply rest, hrest.giving, ?_⟩
  cases h.requireRole role caller <;> rfl

/-- **Every entry asks for its role before anything else.** -/
theorem answer_gated {role : Role} {caller : AccountId}
    (hentry : call.entry? = some (role, caller)) : h.Gated role caller (h.answer call) := by
  cases call with
  | setTime | advanceTime | replaceRoles | replacePrices | replaceSafeguards => cases hentry
  | openPosition caller order =>
    cases hentry
    refine Gated.giving ⟨_, ?_, rfl⟩
    exact .bind (.requireRunning _ _) fun _ => .bind (.inTermsOf nofun) fun _ => .ok _
  | modifyPosition caller id sizeDelta collateralDelta =>
    cases hentry
    refine Gated.giving ⟨_, ?_, rfl⟩
    refine .bind (.requirePosition id) fun before => .bind (.requireRunning _ _) fun _ => ?_
    exact .bind (.requirePrice _) fun price => .bind (.inTermsOf nofun) fun _ => .ok _
  | closePosition caller id =>
    cases hentry
    refine Gated.giving ⟨_, ?_, rfl⟩
    refine .bind (.requirePosition id) fun p => .bind (.requireRunning _ _) fun _ => ?_
    exact .bind (.requirePrice _) fun price => .bind (.inTermsOf nofun) fun _ => .ok _
  | forceClose caller id price isLiquidation =>
    cases hentry
    refine Gated.giving ⟨_, ?_, rfl⟩
    refine .bind (.requirePosition id) fun p => .bind (.requireRunning _ _) fun _ => ?_
    exact .bind (.inTermsOf nofun) fun _ => .ok _
  | executeDeleverage caller shortfall =>
    cases hentry
    refine Gated.giving ⟨_, ?_, rfl⟩
    exact .bind (.requireRunning _ _) fun _ => .bind (.inTermsOf nofun) fun _ => .ok _
  | refreshMarket caller market =>
    cases hentry
    refine Gated.giving ⟨_, ?_, rfl⟩
    refine .bind (.requireRunning _ _) fun _ => .bind (.requirePrice _) fun price => ?_
    exact .bind (.refusing nofun) fun _ => .ok _
  | settleFunding caller market =>
    cases hentry
    refine Gated.giving ⟨_, ?_, rfl⟩
    exact .bind (.requireRunning _ _) fun _ => .bind (.inTermsOf nofun) fun _ => .ok _
  | configureMargin caller market tier =>
    cases hentry
    change h.Gated _ _ (answer.giving (fun _ => .done) (h.configureMargin caller market tier))
    exact Gated.giving ⟨_, .bind (.refusing nofun) fun _ => .ok _, rfl⟩
  | setMarketActive caller market active =>
    cases hentry
    change h.Gated _ _ (answer.giving (fun _ => .done) (h.setMarketActive caller market active))
    exact Gated.giving ⟨_, .bind (.refusing nofun) fun _ => .ok _, rfl⟩
  | configureDeleverage caller market insuranceThreshold maxPositions gracePeriod =>
    cases hentry
    change h.Gated _ _ (answer.giving (fun _ => .done)
      (h.configureDeleverage caller market insuranceThreshold maxPositions gracePeriod))
    exact Gated.giving ⟨_, .bind (.refusing nofun) fun _ => .ok _, rfl⟩
  | toggleDeleverage caller market =>
    cases hentry
    exact Gated.giving ⟨_, .bind (.refusing nofun) fun _ => .ok _, rfl⟩
  | configureFunding caller market terms =>
    cases hentry
    change h.Gated _ _ (answer.giving (fun _ => .done) (h.configureFunding caller market terms))
    exact Gated.giving ⟨_, .bind (.refusing nofun) fun _ => .ok _, rfl⟩

/-- A call that asks for no role is never refused. -/
theorem answer_of_entry?_eq_none (hentry : call.entry? = none) :
    ∃ reply next, h.answer call = .ok (reply, next) := by
  cases call with
  | setTime | advanceTime | replaceRoles | replacePrices | replaceSafeguards => exact ⟨_, _, rfl⟩
  | _ => cases hentry

/-- Without the role a call is refused for it, whatever else is wrong with the call. -/
theorem perform_of_unentitled {role : Role} {caller : AccountId}
    (hentry : call.entry? = some (role, caller)) (hlacks : h.roles.holds role caller = false) :
    InPlace.perform h call = .ok (.error (.unauthorized role caller), h) := by
  obtain ⟨rest, -, hanswer⟩ := answer_gated (h := h) hentry
  have hgate : h.requireRole role caller = refuse (.unauthorized role caller) := by
    unfold requireRole
    rw [hlacks]
    rfl
  rw [InPlace.perform_eq]
  unfold perform
  rw [hanswer, hgate]
  rfl

/-- Nobody else is told that a role is missing. -/
theorem unentitled_of_perform {role : Role} {caller : AccountId} {left : House}
    (hperform : InPlace.perform h call = .ok (.error (.unauthorized role caller), left)) :
    call.entry? = some (role, caller) ∧ h.roles.holds role caller = false := by
  rw [InPlace.perform_eq] at hperform
  have hanswer : h.answer call = .error (.refused (.unauthorized role caller)) := by
    rcases orStay_eq_ok.1 hperform with ⟨_, hreply, -⟩ | ⟨_, hreply, hrefused, -⟩
    · cases hreply
    · cases hreply
      exact hrefused
  cases hentry : call.entry? with
  | none =>
    obtain ⟨reply, next, hok⟩ := answer_of_entry?_eq_none (h := h) hentry
    rw [hok] at hanswer
    cases hanswer
  | some entry =>
    obtain ⟨asked, asker⟩ := entry
    obtain ⟨rest, hrest, hgated⟩ := answer_gated (h := h) hentry
    rw [hgated] at hanswer
    unfold requireRole at hanswer
    by_cases hholds : h.roles.holds asked asker = true
    · rw [if_pos hholds] at hanswer
      exact absurd hanswer (hrest role caller)
    · rw [if_neg hholds] at hanswer
      cases hanswer
      exact ⟨rfl, Bool.eq_false_iff.2 hholds⟩

/-! ### One call of a run -/

/-- A call that the house does not entitle its caller to asks for a role that the caller lacks. -/
theorem exists_of_not_entitles (hunentitled : h.entitles call = false) :
    ∃ role caller, call.entry? = some (role, caller) ∧ h.roles.holds role caller = false := by
  unfold entitles at hunentitled
  split at hunentitled
  · cases hunentitled
  · exact ⟨_, _, ‹_›, hunentitled⟩

theorem entitles_eq_false_iff : h.entitles call = false ↔
    ∃ role caller, InPlace.perform h call = .ok (.error (.unauthorized role caller), h) := by
  constructor
  · intro hunentitled
    obtain ⟨role, caller, hentry, hlacks⟩ := exists_of_not_entitles hunentitled
    exact ⟨role, caller, perform_of_unentitled hentry hlacks⟩
  · rintro ⟨role, caller, hperform⟩
    obtain ⟨hentry, hlacks⟩ := unentitled_of_perform hperform
    unfold entitles
    rw [hentry]
    exact hlacks

variable {answered : Except HouseError Reply}

/-- A call that its caller has no role for leaves the house as it was. -/
theorem eq_of_unentitled (hperform : InPlace.perform h call = .ok (answered, next))
    (hunentitled : h.entitles call = false) : next = h := by
  obtain ⟨role, caller, hrefused⟩ := entitles_eq_false_iff.1 hunentitled
  rw [hrefused] at hperform
  cases hperform
  rfl

theorem authorized_of_entitled (hperform : InPlace.perform h call = .ok (answered, next))
    (hentitled : h.entitles call = true) :
    h.authorized (call :: calls) = call :: next.authorized calls := by
  rw [authorized, hperform]
  exact if_pos hentitled

theorem authorized_of_unentitled (hperform : InPlace.perform h call = .ok (answered, next))
    (hunentitled : h.entitles call = false) :
    h.authorized (call :: calls) = next.authorized calls := by
  rw [authorized, hperform]
  exact if_neg (Bool.eq_false_iff.1 hunentitled)

/-! ### A whole run -/

theorem run_authorized_eq (h : House) (calls : List Call) :
    InPlace.run h (h.authorized calls) = InPlace.run h calls := by
  induction calls generalizing h with
  | nil => rfl
  | cons call calls ih =>
    cases hperform : InPlace.perform h call with
    | error s => rw [authorized, hperform]
    | ok result =>
      obtain ⟨answered, next⟩ := result
      by_cases hentitled : h.entitles call = true
      · rw [authorized_of_entitled hperform hentitled, run_cons_of_ok hperform,
          run_cons_of_ok hperform]
        exact ih next
      · rw [Bool.not_eq_true] at hentitled
        -- Roles are the same after the refusal, so the calls that follow are sorted out alike.
        obtain rfl := eq_of_unentitled hperform hentitled
        rw [authorized_of_unentitled hperform hentitled, run_cons_of_ok hperform]
        exact ih next

theorem course_authorized (h : House) (calls : List Call) :
    h.course (h.authorized calls) = (h.course calls).filter Moment.entitled := by
  induction calls generalizing h with
  | nil => rfl
  | cons call calls ih =>
    cases hperform : InPlace.perform h call with
    | error s =>
      have hentitled : h.entitles call = true := by
        by_contra hnot
        rw [Bool.not_eq_true] at hnot
        obtain ⟨role, caller, hrefused⟩ := entitles_eq_false_iff.1 hnot
        rw [hrefused] at hperform
        cases hperform
      rw [authorized, hperform]
      dsimp only
      have hmoment : Moment.entitled ⟨h, call, .error s⟩ = true := hentitled
      rw [course_of_stop hperform, List.filter_cons_of_pos hmoment, List.filter_nil]
    | ok result =>
      obtain ⟨answered, next⟩ := result
      by_cases hentitled : h.entitles call = true
      · have hmoment : Moment.entitled ⟨h, call, .ok (answered, next)⟩ = true := hentitled
        rw [authorized_of_entitled hperform hentitled, course_of_ok hperform,
          course_of_ok hperform, List.filter_cons_of_pos hmoment, ih next]
      · have hmoment : ¬ Moment.entitled ⟨h, call, .ok (answered, next)⟩ = true := hentitled
        rw [course_of_ok hperform, List.filter_cons_of_neg hmoment]
        rw [Bool.not_eq_true] at hentitled
        obtain rfl := eq_of_unentitled hperform hentitled
        rw [authorized_of_unentitled hperform hentitled]
        exact ih next

/-- **Calls without the role leave no trace.**  Taking them out of a run leaves its end as it is,
and each other call finds the same house, is answered the same and leaves the same house.  Those
that are taken out were refused for the role that they lacked and left the house as it was, and no
other call was refused for a role. -/
theorem run_authorized (h : House) (calls : List Call) :
    InPlace.run h (h.authorized calls) = InPlace.run h calls ∧
      h.course (h.authorized calls) = (h.course calls).filter Moment.entitled ∧
      ∀ m ∈ h.course calls,
        (∀ role caller, m.call.entry? = some (role, caller) →
          m.house.roles.holds role caller = false →
            m.outcome = .ok (.error (.unauthorized role caller), m.house)) ∧
        (∀ role caller left, m.outcome = .ok (.error (.unauthorized role caller), left) →
          m.entitled = false) := by
  refine ⟨run_authorized_eq h calls, course_authorized h calls, fun m hm => ⟨?_, ?_⟩⟩
  · intro role caller hentry hlacks
    rw [outcome_of_mem_course hm]
    exact perform_of_unentitled hentry hlacks
  · intro role caller left hrefused
    rw [outcome_of_mem_course hm] at hrefused
    obtain ⟨hentry, hlacks⟩ := unentitled_of_perform hrefused
    unfold Moment.entitled entitles
    rw [hentry]
    exact hlacks

/-- A stranger tries to open a position, and a trader whose role was taken away tries to close one
that does not exist. -/
def sampleRevoked : List Call :=
  [.configureMargin ⟨9⟩ ⟨1⟩ .standard,
    .openPosition ⟨8⟩ (Ledger.sampleOrder ⟨1⟩ .long (.ofUInt32 2)),
    .openPosition ⟨9⟩ (Ledger.sampleOrder ⟨1⟩ .long (.ofUInt32 2)),
    .replaceRoles (sampleHouse.roles.revoke .tradingEntry ⟨9⟩).2,
    .closePosition ⟨9⟩ ⟨77⟩,
    .forceClose ⟨9⟩ ⟨1⟩ (.ofUInt32 100) true]

/-- Both are refused, and the run comes out as it does without them. -/
theorem run_authorized_revoked :
    ∃ m last, m ∈ sampleHouse.course sampleRevoked ∧
      m.call = .closePosition ⟨9⟩ ⟨77⟩ ∧ m.house.roles.holds .tradingEntry ⟨9⟩ = false ∧
      (sampleHouse.authorized sampleRevoked).length = 4 ∧
      InPlace.run sampleHouse sampleRevoked = .ok last ∧
      m.outcome = .ok (.error (.unauthorized .tradingEntry ⟨9⟩), m.house) ∧
      InPlace.run sampleHouse (sampleHouse.authorized sampleRevoked) = .ok last := by
  obtain ⟨last, hlast, hlength⟩ := exists_of_succeedsWith
    (fun _ : House => decide ((sampleHouse.authorized sampleRevoked).length = 4))
    (x := InPlace.run sampleHouse sampleRevoked) (by decide +kernel)
  have hfound : ((sampleHouse.course sampleRevoked).find? fun m =>
      decide (m.call = .closePosition ⟨9⟩ ⟨77⟩ ∧
        m.house.roles.holds .tradingEntry ⟨9⟩ = false)).isSome = true := by
    decide +kernel
  obtain ⟨m, hm⟩ := Option.isSome_iff_exists.1 hfound
  have hmem := List.mem_of_find?_eq_some hm
  have htest := List.find?_some hm
  rw [decide_eq_true_eq] at htest
  obtain ⟨hcall, hlacks⟩ := htest
  obtain ⟨hsame, -, hmoments⟩ := run_authorized sampleHouse sampleRevoked
  refine ⟨m, last, hmem, hcall, hlacks, of_decide_eq_true hlength, hlast, ?_, hsame.trans hlast⟩
  exact (hmoments m hmem).1 _ _ (by rw [hcall]; rfl) hlacks

end House

end Clearing
