import ScriptHost.Proofs.Handles.Interpreter
/-!
Accounts of handles: whose they are, and what finalizers do to them. Worlds that are balanced have
their accounts in order.
-/
namespace ScriptHost

open Bridge (Handle)
open Host (TypeId World)
open Run
open Script (Remains Value Wrapper)

variable {w v : World Engine}

/-! ## Owners -/

/-- Somebody who has a handle: the host, a wrapper that somebody holds, or one that waits to be
finalized. -/
inductive Owner
  | host
  | wrapper (k : Wrapper)
  | remains (r : Remains)

/-- Whose a handle is. -/
def Engine.Owns (e : Engine) : Owner → Handle → Prop
  | .host, h => .given h ∈ e.ledger
  | .wrapper k, h => .handle k ∈ e.values ∧ k.handle = h
  | .remains r, h => r ∈ e.script.graveyard ∧ r.handle = h

/-- The accounts of an engine are in order. -/
structure Engine.Accounted (e : Engine) : Prop where
  /-- The registry holds the handles that somebody has, apart from those that the host released. -/
  issued : ∀ h, e.bridge.registry.isIssued h = true ↔
    (∃ owner, e.Owns owner h) ∧ .revoked h ∉ e.ledger
  /-- Nobody shares a handle. -/
  single : ∀ h owner other, e.Owns owner h → e.Owns other h → owner = other
  queue : (e.script.graveyard.toList.map (·.handle)).Nodup
  /-- Each type that was imported has a wrapper of its own, that is there all the time. -/
  classes : ∀ type v, e.bridge.classes.find? type = some v →
    ∃ k, v = .handle k ∧ e.Owns (.wrapper k) k.handle ∧ e.fixtures.ClassOf type k
  apart : ∀ type other v, e.bridge.classes.find? type = some v →
    e.bridge.classes.find? other = some v → type = other
  /-- Any other wrapper stands for an object, and behaves as the instances of its type do. -/
  wrappers : ∀ k h, e.Owns (.wrapper k) h →
    (∀ type, e.bridge.classes.find? type ≠ some (.handle k)) →
    ∃ type, e.fixtures.InstanceOf type k.behaviour h
  waiting : ∀ r h, e.Owns (.remains r) h → ∃ type, e.fixtures.InstanceOf type r.behaviour h
  /-- What a finalizer released was nobody else's, and the host did not release it. -/
  finalized : ∀ h, .finalized h ∈ e.ledger →
    (∀ owner, ¬ e.Owns owner h) ∧ .revoked h ∉ e.ledger
  /-- Nothing is given or released twice. -/
  once : e.ledger.Nodup

/-- Where no computation is under way, those whom handles belong to are known. -/
theorem Engine.known_iff (e : Engine) (h : Handle) :
    (∃ owner, e.Owns owner h) ↔
      .given h ∈ e.ledger ∨ Carried (e.Has []) e.script.graveyard.toList h := by
  constructor
  · rintro ⟨owner, owns⟩
    cases owner with
    | host => exact .inl owns
    | wrapper k => exact .inr (.inl ⟨k, .inl owns.1, owns.2⟩)
    | remains r => exact .inr (.inr ⟨r, Array.mem_toList_iff.2 owns.1, owns.2⟩)
  · rintro (given | ⟨k, there | member, same⟩ | ⟨r, member, same⟩)
    · exact ⟨.host, given⟩
    · exact ⟨.wrapper k, there, same⟩
    · cases member
    · exact ⟨.remains r, Array.mem_toList_iff.1 member, same⟩

/-- Where wrappers are in custody, nobody shares a handle. -/
theorem Engine.owner_unique {e : Engine}
    (custody : Custody e.fixtures e.script.graveyard.toList (e.Has [])) {h : Handle}
    {owner other : Owner} (first : e.Owns owner h) (second : e.Owns other h) : owner = other := by
  have host : ∀ owner, .given h ∈ e.ledger → e.Owns owner h → owner = .host := by
    intro owner given owns
    have alone := custody.books.apart h given
    cases owner with
    | host => rfl
    | wrapper k => exact (alone (.inl ⟨k, .inl owns.1, owns.2⟩)).elim
    | remains r => exact (alone (.inr ⟨r, Array.mem_toList_iff.2 owns.1, owns.2⟩)).elim
  have parted : ∀ k r, e.Owns (.wrapper k) h → ¬ e.Owns (.remains r) h :=
    fun k r has queued => custody.gone r (Array.mem_toList_iff.2 queued.1) k (.inl has.1)
      (has.2.trans queued.2.symm)
  cases owner with
  | host => exact (host other first second).symm
  | wrapper k =>
    cases other with
    | host => exact host _ second first
    | wrapper l =>
      rw [custody.same k (.inl first.1) l (.inl second.1) (first.2.trans second.2.symm)]
    | remains r => exact (parted k r first second).elim
  | remains r =>
    cases other with
    | host => exact host _ second first
    | wrapper k => exact (parted k r second first).elim
    | remains s =>
      have same := List.inj_on_of_nodup_map custody.nodup (Array.mem_toList_iff.2 first.1)
        (Array.mem_toList_iff.2 second.1) (first.2.trans second.2.symm)
      rw [same]

theorem Balanced.accounted (balanced : Balanced [] w) (regular : w.outer.Regular) :
    w.outer.Accounted := by
  have custody := balanced.custody regular
  rw [List.nil_append] at custody
  have books := custody.books
  have known := w.outer.known_iff
  constructor
  case issued =>
    intro h
    rw [known]
    constructor
    · intro issued
      refine ⟨books.owned h issued, fun revoked => ?_⟩
      exact books.not_retired issued (books.retired h (.inl revoked))
    · rintro ⟨somebody, kept⟩
      by_contra dead
      exact kept (books.missing h somebody (Bool.eq_false_iff.2 dead))
  case single => exact fun h owner other first second => Engine.owner_unique custody first second
  case queue => exact custody.nodup
  case classes =>
    intro type v found
    obtain ⟨-, k, rfl, is⟩ := custody.classes type v found
    exact ⟨k, rfl, ⟨Engine.mem_values_of_class found, rfl⟩, is⟩
  case apart => exact custody.classes_inj
  case wrappers =>
    rintro k h ⟨there, rfl⟩ object
    exact (custody.wrapper k (.inl there)).resolve_right fun ⟨type, found⟩ => object type found
  case waiting =>
    rintro r h ⟨member, rfl⟩
    exact custody.queued r (Array.mem_toList_iff.2 member)
  case finalized =>
    intro h done
    obtain ⟨notHosts, notWrappers, kept⟩ := books.finished h done
    refine ⟨fun owner owns => ?_, kept⟩
    exact ((known h).1 ⟨owner, owns⟩).elim notHosts notWrappers
  case once => exact books.nodup

/-! ## Finalizers -/

namespace Run

variable {run run' : Runner}

/-- The finalizer of a wrapper releases the handle of that wrapper if it is issued, and does nothing
else. It is refused only if there is no room for a call. -/
def SettlesOwn (run : Runner) (r : Remains) (v : World Engine) : Prop :=
  finalize run r v = (.ok (), { v with outer := v.outer.finalized r }) ∨
    (Full v.outer.script ∧ ∃ entry, finalize run r v = (.ok (), { v with
      journal := v.journal.push entry
      outer := { v.outer with ledger := .refused r.slot :: v.outer.ledger } })) ∨
    (finalize run r v).1 = .error .exhausted

/-- Whenever a wrapper that waits is finalized, after those before it, its own handle is settled. -/
def Collects (run : Runner) (w : World Engine) : Prop :=
  ∀ before r after v, w.outer.script.graveyard.toList = before ++ r :: after →
    (before.forM (finalize run) : Run Script.Error PUnit)
      (withScript w { w.outer.script with graveyard := #[] }) = (.ok (), v) →
    v.outer.Regular → SettlesOwn run r v

/-- The one that waits longest is finalized first. -/
theorem Collects.first (collects : Collects run w) {r : Remains} {after : List Remains}
    (waiting : w.outer.script.graveyard.toList = r :: after) (regular : w.outer.Regular) :
    SettlesOwn run r (withScript w { w.outer.script with graveyard := #[] }) :=
  collects [] r after _ waiting rfl (regular.congr rfl rfl rfl)

theorem collects_of_balanced (agrees : Agrees run run')
    (orderly : OrderlyRunner (fun _ => False) run) (fits : w.outer.script.Fits)
    (balanced : Balanced [] w) : Collects run w := by
  intro before r after v graveyard ran regular
  have emptied := balanced.emptied
  rw [graveyard] at emptied
  have settled := balances_finalizeAll agrees
    (w := withScript w { w.outer.script with graveyard := #[] }) emptied
  have kept : (before.forM (finalize run) : Run Script.Error PUnit)
      (withScript w { w.outer.script with graveyard := #[] }) |>.2.outer.script.Fits :=
    Session.fits_of_orderly (d := .still) (.forM fun r _ => orderly_finalize orderly r) fits
  obtain ⟨-, ends⟩ := settled
  rw [ran] at ends kept
  obtain ⟨-, sound⟩ := ends
  have custody := sound.custody regular
  obtain ⟨type, ⟨keys, exposed, same⟩, -⟩ := custody.queued r List.mem_cons_self
  have finalizes := (custody.fair.finalizes type keys exposed).1
  rw [← same] at finalizes
  rcases finalize_apply agrees finalizes with deep | ⟨entry, full, refused⟩ | done
  · exact .inr (.inr deep)
  · exact .inr (.inl ⟨full kept, entry, refused⟩)
  · exact .inl done

end Run

/-! ## Worlds with their accounts in order -/

/-- Unless something went past the bridge or wrong with a finalizer, the accounts of a world are in
order, and finalizers leave them so. -/
def InOrder (w : World Engine) : Prop :=
  w.outer.Regular →
    w.outer.Accounted ∧ ∀ levels, Run.Collects (Session.interpreter levels).function w

theorem inOrder_of_balanced (fits : w.outer.script.Fits) (balanced : Balanced [] w) : InOrder w :=
  fun regular => ⟨balanced.accounted regular, fun levels => Run.collects_of_balanced
    (Session.alike_interpreter levels).function
    (Session.orderly_interpreter levels) fits balanced⟩

end ScriptHost
