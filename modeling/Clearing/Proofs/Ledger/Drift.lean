import Clearing.Proofs.Ledger.Underflow

/-!
Where open interest drifts away from the sizes.

A run leaves a trail of ledgers, those a deleveraging passes through on its walk among them.
Open interest is exact all along the trail just where no rounding along it is off
(`tracks_iff_roundsTo`), and then no closing or reducing underflows anywhere on it.  The condition
can fail: sizes of different scales are enough (`openInterest_drifts`), and then a position cannot
be closed.
-/

namespace Clearing

open Decimal

/-- The ledgers that a walk passes through, one after each pick. -/
def DeleverageQueue.Walk.ledgers (shortfall : Shortfall) (schedule : MarginSchedule)
    (now : Instant) : Walk → List (Nat × Candidate) → List Ledger
  | _, [] => []
  | w, pick :: picks =>
    match w.take shortfall schedule now pick with
    | .ok next => next.ledger :: ledgers shortfall schedule now next picks
    | .error _ => []

/-- The ledgers that an execution passes through. -/
def DeleverageQueue.ledgers (q : DeleverageQueue) (l : Ledger) (schedule : MarginSchedule)
    (shortfall : Shortfall) (now : Instant) : List Ledger :=
  match q.permit shortfall now with
  | .ok terms =>
    Walk.ledgers shortfall schedule now (.start l shortfall) (q.picks l terms shortfall.lane)
  | .error _ => []

namespace Ledger

/-- The ledgers that an operation passes through, up to the one it leaves; none if it fails. -/
def stages (l : Ledger) (op : Operation) : List Ledger :=
  match l.answer op, op with
  | .error _, _ => []
  | .ok _, .deleverage queue schedule shortfall now => queue.ledgers l schedule shortfall now
  | .ok (_, next), _ => [next]

/-- The ledgers that a run passes through after the one it starts at. -/
def passed : Ledger → List Operation → List Ledger
  | _, [] => []
  | l, op :: ops =>
    match l.perform op with
    | .ok (_, next) => l.stages op ++ passed next ops
    | .error _ => []

/-- The ledgers of a run, from the one it starts at. -/
def trail (l : Ledger) (ops : List Operation) : List Ledger :=
  l :: l.passed ops

/-! ### Paths -/

/-- Sound ledgers, each of which is related to the one before it. -/
inductive Path (R : Ledger → Ledger → Prop) : Ledger → List Ledger → Ledger → Prop
  | nil (l : Ledger) : Path R l [] l
  | cons {l next last : Ledger} {rest : List Ledger} (sound : next.Sound)
      (related : R l next) (path : Path R next rest last) : Path R l (next :: rest) last

variable {R : Ledger → Ledger → Prop}

namespace Path

variable {l mid last : Ledger} {xs ys : List Ledger}

theorem append (h : Path R l xs mid) (h' : Path R mid ys last) : Path R l (xs ++ ys) last := by
  induction h with
  | nil => exact h'
  | cons sound related _ ih => exact .cons sound related (ih h')

theorem last_mem (h : Path R l xs last) : last ∈ l :: xs := by
  induction h with
  | nil => exact List.mem_cons_self ..
  | cons _ _ _ ih => exact List.mem_cons_of_mem _ ih

theorem sound (h : Path R l xs last) (hl : l.Sound) : ∀ x ∈ l :: xs, x.Sound := by
  induction h with
  | nil => exact fun x hx => by rwa [List.mem_singleton.1 hx]
  | cons hsound _ _ ih =>
    intro x hx
    rcases List.mem_cons.1 hx with rfl | hx
    · exact hl
    · exact ih hsound x hx

theorem isChain (h : Path R l xs last) : (l :: xs).IsChain R := by
  induction h with
  | nil => exact .singleton _
  | cons _ related _ ih => exact List.isChain_cons_cons.2 ⟨related, ih⟩

/-- Along a path that starts exact, open interest is exact as far as the roundings are. -/
theorem tracks_iff (h : Path Follows l xs last) (hl : l.Tracks) :
    (∀ x ∈ l :: xs, x.Tracks) ↔ (l :: xs).IsChain RoundsTo := by
  induction h with
  | nil => simpa using hl
  | @cons l next last rest _ follows _ ih =>
    rw [List.isChain_cons_cons, List.forall_mem_cons, and_iff_right hl]
    constructor
    · intro h
      have hnext := h next (List.mem_cons_self ..)
      exact ⟨(follows.tracks_iff hl).1 hnext, (ih hnext).1 h⟩
    · rintro ⟨hround, hchain⟩
      exact (ih ((follows.tracks_iff hl).2 hround)).2 hchain

theorem single (hnext : mid.Sound) (h : R l mid) : Path R l [mid] mid :=
  .cons hnext h (.nil mid)

end Path

/-! ### The trail is a path -/

/-- The relation holds from a sound ledger to the one that an operation leaves, to each that a
deleveraging passes through, and to itself. -/
structure Spans (R : Ledger → Ledger → Prop) (ops : List Operation) : Prop where
  refl (l : Ledger) : R l l
  reduced {l : Ledger} {id : PositionId} {amount : Decimal} {price : Price}
    {schedule : MarginSchedule} {now : Instant} {posted : Posted Reduction} (hsound : l.Sound)
    (h : l.forceReduce id amount price schedule now = .ok posted) : R l posted.ledger
  answered {l next : Ledger} {op : Operation} {reply : Reply} (hmem : op ∈ ops)
    (hop : op.walks = false) (hsound : l.Sound) (h : l.answer op = .ok (reply, next)) : R l next

/-- An operation that is refused passes through nothing, however far it had got. -/
theorem stages_of_refused {l next : Ledger} {op : Operation} {cause : Refusal}
    (h : l.perform op = .ok (.error cause, next)) : l.stages op = [] := by
  rcases orStay_eq_ok.1 h with ⟨_, hreply, -⟩ | ⟨_, -, hanswer, -⟩
  · cases hreply
  · unfold stages
    rw [hanswer]

namespace Spans

variable {ops : List Operation}

theorem tail {op : Operation} (h : Spans R (op :: ops)) : Spans R ops where
  refl := h.refl
  reduced := h.reduced
  answered hmem := h.answered (List.mem_cons_of_mem _ hmem)

theorem walk {shortfall : Shortfall} {schedule : MarginSchedule} {now : Instant}
    {picks : List (Nat × Candidate)} {w last : DeleverageQueue.Walk} (h : Spans R ops)
    (hsound : w.ledger.Sound)
    (hwalk : picks.foldlM (DeleverageQueue.Walk.take shortfall schedule now) w = .ok last) :
    Path R w.ledger (w.ledgers shortfall schedule now picks) last.ledger := by
  induction picks generalizing w with
  | nil =>
    rw [List.foldlM_nil, pure_eq_ok] at hwalk
    subst hwalk
    exact .nil _
  | cons pick picks ih =>
    rw [List.foldlM_cons, bind_eq_ok] at hwalk
    obtain ⟨next, htake, hwalk⟩ := hwalk
    rw [DeleverageQueue.Walk.ledgers, htake]
    rcases DeleverageQueue.take_eq_ok htake with rfl | ⟨p, amount, price, schedule', posted, -,
      hforced, hledger, -⟩
    · exact .cons hsound (h.refl _) (ih hsound hwalk)
    · have hnext : next.ledger.Sound := hledger ▸ hsound.change (forceReduce_change hforced)
      exact .cons hnext (hledger ▸ h.reduced hsound hforced) (ih hnext hwalk)

theorem stages {l next : Ledger} {op : Operation} {reply : Except Refusal Reply}
    (h : Spans R ops) (hmem : op ∈ ops) (hsound : l.Sound)
    (hperform : l.perform op = .ok (reply, next)) : Path R l (l.stages op) next := by
  rcases orStay_eq_ok.1 hperform with ⟨r, -, hanswer⟩ | ⟨cause, rfl, -, hnext⟩
  · have hstep : op.walks = false → Path R l [next] next := by
      intro hop
      refine .single ?_ (h.answered hmem hop hsound hanswer)
      rcases answer_step hsound.indexed.stored hop hanswer with ⟨p, now, notice, -, hopens⟩ |
        ⟨-, hchange⟩
      · exact hsound.opens hopens
      · exact hsound.change hchange
    unfold Ledger.stages
    rw [hanswer]
    cases op with
    | deleverage q schedule shortfall now =>
      obtain ⟨coverage, left, -, hx⟩ := deleverage_eq_ok hanswer
      obtain ⟨terms, walk, hterms, -, hwalk, rfl, -⟩ := DeleverageQueue.execute_eq_ok hx
      dsimp only [DeleverageQueue.ledgers]
      rw [hterms]
      exact h.walk (w := .start l shortfall) hsound hwalk
    | _ => exact hstep rfl
  · rw [stages_of_refused hperform, hnext]
    exact .nil l

theorem passed {l : Ledger} (h : Spans R ops) (hsound : l.Sound) :
    ∃ last, Path R l (l.passed ops) last ∧
      ∀ replies last', l.run ops = .ok (replies, last') → last' = last := by
  induction ops generalizing l with
  | nil =>
    refine ⟨l, .nil l, fun replies last' hrun => ?_⟩
    cases hrun
    rfl
  | cons op ops ih =>
    rw [Ledger.passed]
    cases hperform : l.perform op with
    | error stop =>
      refine ⟨l, .nil l, fun replies last' hrun => ?_⟩
      obtain ⟨_, _, _, hok, -⟩ := inTurn_cons_eq_ok.1 hrun
      rw [hperform] at hok
      cases hok
    | ok r =>
      obtain ⟨reply, next⟩ := r
      have hstages := h.stages (List.mem_cons_self ..) hsound hperform
      obtain ⟨last, hpath, hlast⟩ := ih h.tail (hstages.sound hsound next hstages.last_mem)
      refine ⟨last, hstages.append hpath, fun replies last' hrun => ?_⟩
      obtain ⟨_, _, rest, hok, hrun, -⟩ := inTurn_cons_eq_ok.1 hrun
      rw [hperform] at hok
      cases hok
      exact hlast rest last' hrun

end Spans

theorem Follows.refl (l : Ledger) : Follows l l :=
  fun _ => ⟨0, by rw [Int.sub_self]; exact rounded?_units zero,
    by rw [Int.add_zero]; exact rounded?_units _⟩

theorem Follows.spans (ops : List Operation) : Spans Follows ops where
  refl := Follows.refl
  reduced hsound h := (forceReduce_change h).follows hsound.indexed.stored
  answered hmem hop hsound h := by
    rcases answer_step hsound.indexed.stored hop h with ⟨p, now, notice, -, hopens⟩ | ⟨-, hchange⟩
    · exact hopens.follows hsound.indexed
    · exact hchange.follows hsound.indexed.stored

theorem passed_path {l : Ledger} (hsound : l.Sound) (ops : List Operation) :
    ∃ last, Path Follows l (l.passed ops) last ∧
      ∀ replies last', l.run ops = .ok (replies, last') → last' = last :=
  (Follows.spans ops).passed hsound

theorem Tracks.startingAt (first : Nat) : (Ledger.startingAt first).Tracks := by
  intro lane
  have hnothing : (Ledger.startingAt first).openInterestOn lane = .zero := by
    show OpenInterest.onSide .none lane.side = .zero
    cases lane.side <;> rfl
  rw [hnothing, units_zero]
  rfl

/-- **When open interest is exact.**  Over any run, whatever it is asked for, open interest equals
the sum of the sizes in every ledger of the trail, and nothing on it is refused as an underflow,
just where no rounding of a change or of a sum is off between two of its ledgers.  The trail
holds the ledger that the run ends with. -/
theorem tracks_iff_roundsTo (first : Nat) (ops : List Operation) :
    ((∀ l ∈ (startingAt first).trail ops, l.Tracks ∧ l.NeverUnderflows) ↔
      ((startingAt first).trail ops).IsChain RoundsTo) ∧
    ∀ replies l, (startingAt first).run ops = .ok (replies, l) →
      l ∈ (startingAt first).trail ops := by
  have hsound := Sound.startingAt first
  obtain ⟨last, hpath, hlast⟩ := passed_path hsound ops
  refine ⟨?_, fun replies l h => ?_⟩
  · unfold trail
    rw [← hpath.tracks_iff (.startingAt first)]
    constructor
    · exact fun h l hl => (h l hl).1
    · exact fun h l hl => ⟨h l hl, neverUnderflows (hpath.sound hsound l hl) (h l hl)⟩
  · rw [hlast replies l h]
    exact hpath.last_mem

/-- A third, written to as many digits as a decimal holds. -/
def third : Decimal :=
  ⟨false, 3333333333333333333333333333, 28, by decide, by decide⟩

/-- A hundred thirds, written with one decimal less. -/
def hundredThirds : Decimal :=
  ⟨false, 33333333333333333333333333333, 27, by decide, by decide⟩

/-- Two longs are opened and the larger one is closed again. -/
def driftingRun : List Operation :=
  [.openPosition (sampleOrder ⟨1⟩ .long hundredThirds) sampleSchedule .epoch,
    .openPosition (sampleOrder ⟨2⟩ .long third) sampleSchedule .epoch,
    .close ⟨1⟩ (.ofUInt32 100) .epoch]

/-- The sum of the two sizes has a digit more than a decimal holds.  What is left of open interest
after the closing misses it, and so the other position cannot be closed. -/
theorem openInterest_drifts :
    ∃ replies l p, (startingAt 1).run driftingRun = .ok (replies, l) ∧
      l.position? ⟨2⟩ = some p ∧ ¬ l.Tracks ∧
      l.close ⟨2⟩ (.ofUInt32 100) .epoch = .error (.refused underflow) := by
  obtain ⟨⟨replies, l⟩, h, htest⟩ := exists_of_succeedsWith
    (fun r : List (Except Refusal Reply) × Ledger => (r.2.position? ⟨2⟩).isSome
      && decide ((r.2.openInterestOn ⟨⟨1⟩, .long⟩).units ≠ r.2.sizeOn ⟨⟨1⟩, .long⟩)
      && failsWith (.refused underflow) (r.2.close ⟨2⟩ (.ofUInt32 100) .epoch))
    (x := (startingAt 1).run driftingRun) (by decide +kernel)
  rw [Bool.and_eq_true, Bool.and_eq_true] at htest
  obtain ⟨⟨hheld, hdrift⟩, hrefused⟩ := htest
  obtain ⟨p, hp⟩ := Option.isSome_iff_exists.1 hheld
  have hmissed := of_decide_eq_true hdrift
  exact ⟨replies, l, p, h, hp, fun htracks => hmissed (htracks _),
    eq_error_of_failsWith hrefused⟩

end Ledger

end Clearing
