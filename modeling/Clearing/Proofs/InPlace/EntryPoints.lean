import Clearing.Proofs.InPlace.House
import Clearing.Proofs.Ledger.Runs

/-!
Refused calls change nothing.

Every way to change a component or the house, worked in place and field by field, is all or
nothing: positions with their flags, indices, open interest, portfolios, rankings, the record of
executions, funding, margins and the journal are after a refusal what they were before it.
-/

namespace Clearing

open Edit

/-- The ways in: those of a ledger with any observer (a forced close is a close), of a queue, of a
funding book, of a margin schedule, and the calls of a house. -/
structure EntryPoints (ω : Type) [Observer ω] : Prop where
  openPosition : ∀ order schedule now,
    AllOrNothing (Ledger.InPlace.openPosition order schedule now)
      fun s : Observed ω => (s.ledger.openPosition order schedule now).map s.take
  modify : ∀ id sizeDelta collateralDelta price schedule now,
    AllOrNothing (Ledger.InPlace.modify id sizeDelta collateralDelta price schedule now)
      fun s : Observed ω =>
        (s.ledger.modify id sizeDelta collateralDelta price schedule now).map s.take
  close : ∀ id price now,
    AllOrNothing (Ledger.InPlace.close id price now)
      fun s : Observed ω => (s.ledger.close id price now).map s.take
  forceReduce : ∀ id amount price schedule now,
    AllOrNothing (Ledger.InPlace.forceReduce id amount price schedule now)
      fun s : Observed ω => (s.ledger.forceReduce id amount price schedule now).map s.take
  refresh : ∀ id mark now,
    AllOrNothing (Ledger.InPlace.refresh id mark now)
      fun s : Observed ω =>
        (refusing (fun cause => cause) (s.ledger.refresh id mark now)).map s.take
  refreshMarket : ∀ market mark now,
    AllOrNothing (Ledger.InPlace.refreshMarket market mark now)
      fun s : Observed ω =>
        (refusing (fun cause => cause) (s.ledger.refreshMarket market mark now)).map s.take
  applyFunding : ∀ payments index now,
    AllOrNothing (Ledger.InPlace.applyFunding payments index now)
      fun l => (refusing (fun cause => cause) (l.applyFunding payments index now)).map ((), ·)
  configureDeleverage : ∀ market terms,
    AllOrNothing (DeleverageQueue.InPlace.configure market terms)
      fun q => refusing id (q.configure market terms)
  toggleDeleverage : ∀ market,
    AllOrNothing (DeleverageQueue.InPlace.toggle market) fun q => refusing id (q.toggle market)
  executeDeleverage : ∀ schedule shortfall now,
    AllOrNothing (DeleverageQueue.InPlace.execute schedule shortfall now)
      fun s => (s.observer.execute s.ledger schedule shortfall now).map
        fun (coverage, queue, ledger) => (coverage, ⟨ledger, queue⟩)
  configureFunding : ∀ market terms now,
    AllOrNothing (FundingBook.InPlace.configure market terms now)
      fun b => refusing id (b.configure market terms now)
  settleFunding : ∀ market now,
    AllOrNothing (FundingBook.InPlace.settle market now)
      fun s => (s.book.settle market s.ledger now).map
        fun (settlement, book, ledger) => (settlement, ⟨book, ledger⟩)
  installMargin : ∀ market tier,
    AllOrNothing (MarginSchedule.InPlace.install market tier)
      fun s => refusing id (s.install market tier)
  setMarketActive : ∀ market active,
    AllOrNothing (MarginSchedule.InPlace.setActive market active)
      fun s => (refusing id (s.setActive market active)).map ((), ·)
  answer : ∀ call, AllOrNothing (House.InPlace.answer call) fun h => h.answer call

/-- **A refused call changes nothing.**  In whatever state, with whatever arguments and whoever
follows the ledger, every way in comes to the answer and the state it should, and where it is
refused, the state is as it was. -/
theorem refused_changes_nothing (ω : Type) [Observer ω] : EntryPoints ω where
  openPosition order schedule now :=
    .of_performs fun s => Ledger.InPlace.openPosition_performs s order schedule now
  modify id sizeDelta collateralDelta price schedule now :=
    .of_performs fun s =>
      Ledger.InPlace.modify_performs s id sizeDelta collateralDelta price schedule now
  close id price now := .of_performs fun s => Ledger.InPlace.close_performs s id price now
  forceReduce id amount price schedule now :=
    .of_performs fun s => Ledger.InPlace.forceReduce_performs s id amount price schedule now
  refresh id mark now := .of_performs fun s => Ledger.InPlace.refresh_performs s id mark now
  refreshMarket market mark now :=
    .of_performs fun s => Ledger.InPlace.refreshMarket_performs s market mark now
  applyFunding payments index now :=
    .of_performs fun l => Ledger.InPlace.applyFunding_performs l payments index now
  configureDeleverage market terms :=
    .of_performs_id fun q => DeleverageQueue.InPlace.configure_performs q market terms
  toggleDeleverage market :=
    .of_performs_id fun q => DeleverageQueue.InPlace.toggle_performs q market
  executeDeleverage _ _ _ := .of_performs DeleverageQueue.execute_performs
  configureFunding market terms now :=
    .of_performs_id fun b => FundingBook.InPlace.configure_performs b market terms now
  settleFunding market now :=
    .of_performs fun s => FundingBook.InPlace.settle_performs s market now
  installMargin market tier :=
    .of_performs_id fun s => MarginSchedule.InPlace.install_performs s market tier
  setMarketActive market active :=
    .of_performs fun s => MarginSchedule.InPlace.setActive_performs s market active
  answer call := .of_performs_id fun h => House.InPlace.answer_performs h call

namespace EntryPoints

/-- Two longs, marked above their entry. -/
def twoLongs : List Ledger.Operation :=
  [.openPosition (Ledger.sampleOrder ⟨1⟩ .long (.ofUInt32 20)) Ledger.sampleSchedule .epoch,
    .openPosition (Ledger.sampleOrder ⟨2⟩ .long (.ofUInt32 30)) Ledger.sampleSchedule .epoch,
    .refreshMarket ⟨1⟩ (.ofUInt32 110) .epoch]

/-- A queue that has both, the first one first. -/
def queueOfTwo : DeleverageQueue :=
  let empty := DeleverageQueue.empty 1
  ({ empty with terms := empty.terms.insert ⟨1⟩ .standard }.update
    ⟨⟨1⟩, ⟨1⟩, ⟨1⟩, .long, .one, ⟨5⟩, .ofUInt32 2, .epoch⟩).update
      ⟨⟨1⟩, ⟨2⟩, ⟨2⟩, .long, .one, ⟨5⟩, .one, .epoch⟩

/-- A price at which the gain on 20 can be written down and the gain on 30 cannot. -/
def enormousPrice : Price :=
  (Decimal.ofParts? false 3000000000000000000000000000 0).getD .zero

/-- A shortfall that takes both longs, at that price. -/
def enormousShortfall : Shortfall :=
  ⟨⟨1⟩, ⟨9⟩, .short, .ofUInt32 50, enormousPrice⟩

/-- Taking the first long off, in place. -/
def reduceFirst : Edit (Observed Deferred) LedgerError Reduction :=
  Ledger.InPlace.forceReduce ⟨1⟩ (.ofUInt32 20) enormousPrice Ledger.sampleSchedule .epoch

/-- Taking both off, in place. -/
def executeEnormous : Edit (Observed DeleverageQueue) DeleverageError Coverage :=
  DeleverageQueue.InPlace.execute Ledger.sampleSchedule enormousShortfall .epoch

end EntryPoints

open EntryPoints in
/-- The first long is closed and gone from the ledger before the second one turns out not to be
closable; then it is back. -/
theorem refused_changes_nothing_midway :
    ∃ replies l, (Ledger.startingAt 1).run twoLongs = .ok (replies, l) ∧
      (∃ reduction next, reduceFirst.run ⟨l, ⟨[]⟩⟩ = .ok reduction next ∧
        l.contains ⟨1⟩ = true ∧ next.ledger.contains ⟨1⟩ = false) ∧
      ∃ left, executeEnormous.run ⟨l, queueOfTwo⟩
          = .error (.refused (.forcedClose (.arithmetic (.overflow "unrealized pnl")))) left ∧
        left = ⟨l, queueOfTwo⟩ := by
  obtain ⟨⟨replies, l⟩, hrun, htest⟩ := exists_of_succeedsWith
    (fun r : List (Except Ledger.Refusal Ledger.Reply) × Ledger =>
      comesTo (fun _ next => r.2.contains ⟨1⟩ && !next.ledger.contains ⟨1⟩)
          (reduceFirst.run ⟨r.2, ⟨[]⟩⟩) &&
        refusedFor (.forcedClose (.arithmetic (.overflow "unrealized pnl")))
          (executeEnormous.run ⟨r.2, queueOfTwo⟩))
    (x := (Ledger.startingAt 1).run twoLongs) (by decide +kernel)
  rw [Bool.and_eq_true] at htest
  obtain ⟨reduction, next, hreduced, hgone⟩ := exists_of_comesTo htest.1
  rw [Bool.and_eq_true, Bool.not_eq_true'] at hgone
  obtain ⟨left, hrefused⟩ := exists_of_refusedFor htest.2
  refine ⟨replies, l, hrun, ⟨reduction, next, hreduced, hgone⟩, left, hrefused, ?_⟩
  exact ((refused_changes_nothing Deferred).executeDeleverage _ _ _).kept _ _ left hrefused

end Clearing
