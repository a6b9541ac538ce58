import Mathlib.Data.List.Induction
import RasterEdit.Proofs.Journal.Event

/-!
# Runs of the console

Each part of the console is settled by the last action that sets it: the handler by the last
configuration, even one that failed on its level; the root level by the last one that did not; a
bound value by the last action that gave it since the context was cleared. One step shows what an
action sets, and the runs follow by induction from their end.
-/

set_option autoImplicit false

namespace RasterEdit.Journal

/-! ## The last one -/

/-- What the last of those that are assigned anything is assigned. -/
def latest? {α β : Type} (assigned : α → Option β) (xs : List α) : Option β :=
  xs.reverse.findSome? assigned

section Latest

variable {α β : Type} (assigned : α → Option β)

@[simp] theorem latest?_nil : latest? assigned [] = none := rfl

theorem latest?_concat (xs : List α) (x : α) :
    latest? assigned (xs ++ [x]) = (assigned x).or (latest? assigned xs) := by
  rw [latest?, List.reverse_append, List.findSome?_append, List.reverse_singleton]
  simp only [List.findSome?_singleton]
  rfl

end Latest

/-! ## What an action sets -/

namespace Action

def isConfigure : Action → Bool
  | configure .. => true
  | _ => false

def isClear : Action → Bool
  | clear => true
  | _ => false

/-- Applications' own events are no records. -/
def isAnnounce : Action → Bool
  | announce _ => true
  | _ => false

/-- The style of the handler that an action installs, whether or not its level exists. -/
def style? (settings : Settings) : Action → Option Style
  | configure _ format => some (.ofName ((Console.given? format).getD settings.logFormat))
  | _ => none

/-- The root level that an action applies. -/
def rank? (settings : Settings) : Action → Option Nat
  | configure level _ => (levelRank ((Console.given? level).getD settings.logLevel)).toOption
  | _ => none

/-- The value that an action gives under a key. -/
def value? (key : Key) : Action → Option String
  | bind requestId identifier => Context.bound ⟨requestId, identifier⟩ key
  | _ => none

end Action

namespace Console

/-- No handler but an own one is installed. -/
def OwnOnly (c : Console) : Prop := ∀ handler ∈ c.installed, handler.isOwn = true

theorem installed_install {c : Console} (ownOnly : c.OwnOnly) (style : Style) :
    (c.install style).installed = [.own style] := by
  have replaced : c.installed.filter (!·.isOwn) = [] := by
    refine List.filter_eq_nil_iff.mpr ?_
    intro handler member
    simp [ownOnly handler member]
  rw [install, replaced, List.nil_append]

theorem configure_eq (c : Console) (settings : Settings) (level format : Option String) :
    (c.configure settings level format).1 =
      { c.install (.ofName ((given? format).getD settings.logFormat)) with
        rootLevel :=
          (levelRank ((given? level).getD settings.logLevel)).toOption.getD c.rootLevel } := by
  simp only [configure]
  cases levelRank ((given? level).getD settings.logLevel) with
  | error fault => rfl
  | ok rank => rfl

theorem configure_eq_ok (c : Console) (settings : Settings) (clock : Clock)
    (level format : Option String) :
    (c.perform settings clock (.configure level format)).2.1 = .ok () ↔
      ((Action.configure level format).rank? settings).isSome := by
  simp only [perform, configure, Action.rank?]
  cases levelRank ((given? level).getD settings.logLevel) with
  | error fault => simp [Except.toOption]
  | ok rank => simp [Except.toOption]

section Step

variable (settings : Settings) (clock : Clock) (c : Console) (action : Action)

theorem rootLevel_perform :
    (c.perform settings clock action).1.rootLevel =
      (action.rank? settings).getD c.rootLevel := by
  cases action with
  | configure level format =>
    change (c.configure settings level format).1.rootLevel = _
    rw [configure_eq]
    rfl
  | _ => rfl

theorem installed_perform (ownOnly : c.OwnOnly) :
    (c.perform settings clock action).1.installed =
      (((action.style? settings).map Handler.own).map fun own => [own]).getD c.installed := by
  cases action with
  | configure level format =>
    change (c.configure settings level format).1.installed = _
    rw [configure_eq]
    exact installed_install ownOnly _
  | _ => rfl

theorem bound_perform (key : Key) :
    (c.perform settings clock action).1.context.bound key =
      if action.isClear then none else (action.value? key).or (c.context.bound key) := by
  cases action with
  | configure level format =>
    change (c.configure settings level format).1.context.bound key = _
    rw [configure_eq]
    rfl
  | bind requestId identifier => cases key <;> rfl
  | clear => cases key <;> rfl
  | _ => rfl

end Step

/-! ## What a run leaves -/

/-- The console after a run of actions. -/
def after (settings : Settings) (c : Console) (done : List (Clock × Action)) : Console :=
  done.foldl (fun c (clock, action) => (c.perform settings clock action).1) c

theorem after_concat (settings : Settings) (c : Console) (done : List (Clock × Action))
    (last : Clock × Action) :
    c.after settings (done ++ [last]) =
      ((c.after settings done).perform settings last.1 last.2).1 := by
  rw [after, List.foldl_append]
  rfl

/-- The part of a run behind the last clearing of the context. -/
def sinceClear (done : List (Clock × Action)) : List (Clock × Action) :=
  (done.reverse.takeWhile (!·.2.isClear)).reverse

theorem sinceClear_concat (done : List (Clock × Action)) (last : Clock × Action) :
    sinceClear (done ++ [last]) = if last.2.isClear then [] else sinceClear done ++ [last] := by
  rw [sinceClear, List.reverse_append, List.reverse_singleton, List.singleton_append,
    List.takeWhile_cons]
  cases last.2.isClear with
  | true => rfl
  | false => exact List.reverse_cons

section Run

variable (settings : Settings) (done : List (Clock × Action))

theorem rootLevel_after :
    (start.after settings done).rootLevel = (latest? (·.2.rank? settings) done).getD 30 := by
  induction done using List.reverseRecOn with
  | nil => rfl
  | append_singleton done last ih =>
    rw [after_concat, rootLevel_perform, ih, latest?_concat]
    cases last.2.rank? settings with
    | none => rfl
    | some rank => rfl

theorem installed_after :
    (start.after settings done).installed =
      ((latest? (·.2.style? settings) done).map Handler.own).toList := by
  induction done using List.reverseRecOn with
  | nil => rfl
  | append_singleton done last ih =>
    have ownOnly : (start.after settings done).OwnOnly := by
      intro handler member
      rw [ih] at member
      obtain ⟨style, -, rfl⟩ := Option.map_eq_some_iff.mp (Option.mem_toList.mp member)
      rfl
    rw [after_concat, installed_perform settings last.1 _ last.2 ownOnly, ih, latest?_concat]
    cases last.2.style? settings with
    | none => rfl
    | some style => rfl

theorem bound_after (key : Key) :
    (start.after settings done).context.bound key =
      latest? (·.2.value? key) (sinceClear done) := by
  induction done using List.reverseRecOn with
  | nil => cases key <;> rfl
  | append_singleton done last ih =>
    rw [after_concat, bound_perform, ih, sinceClear_concat]
    cases last.2.isClear with
    | true => rfl
    | false =>
      simp only [Bool.false_eq_true, ↓reduceIte]
      rw [latest?_concat]

end Run

/-! ## What an action writes -/

/-- What an action makes the handlers write. -/
def prints (settings : Settings) (clock : Clock) (c : Console) (action : Action) : List Printed :=
  let (after, _, events) := c.perform settings clock action
  after.printed events

theorem printed_nil (c : Console) : c.printed [] = [] := by
  unfold printed
  split <;> rfl

theorem printed_of_unconfigured {c : Console} (none : c.installed = []) (time : String)
    (records : List Record) : c.printed (c.record time records) = [] := by
  have refused : c.record time records = [] := by
    simp [record, admits, isConfigured, none]
  rw [refused, printed_nil]

theorem printed_of_configured {c : Console} {style : Style} (one : c.installed = [.own style])
    (time : String) (records : List Record) :
    c.printed (c.record time records) =
      (records.filter fun r => c.enables r.level).map fun r => ⟨style, c.eventOf time r⟩ := by
  have configured : c.isConfigured = true := by
    simp [isConfigured, one]
  simp only [printed, record, admits, configured, one, Bool.true_and, ↓reduceIte, List.map_cons,
    List.map_nil]
  induction records.filter fun r => c.enables r.level with
  | nil => rfl
  | cons r rest ih =>
    rw [List.map_cons, List.flatMap_cons, ih]
    rfl

/-- Whoever makes a record leaves the console as it is. -/
theorem prints_of_records (settings : Settings) (clock : Clock) (c : Console) {action : Action}
    (record : action.isAnnounce = false) :
    c.prints settings clock action =
      c.printed (c.record clock.time (action.records clock.elapsed)) := by
  have silent (after : Console) : after.printed (c.record clock.time []) =
      c.printed (c.record clock.time []) := (printed_nil after).trans (printed_nil c).symm
  cases action with
  | configure level format => exact silent _
  | bind requestId identifier => exact silent _
  | clear => exact silent _
  | announce event => cases record
  | _ => rfl

/-- After a run, every record that is looked at is written once, in the style of the last
configuration, and none is before the first one. -/
theorem prints_after (settings : Settings) (done : List (Clock × Action)) (clock : Clock)
    {action : Action} (record : action.isAnnounce = false) :
    let c := start.after settings done
    c.prints settings clock action =
      match latest? (·.2.style? settings) done with
      | none => []
      | some style =>
        ((action.records clock.elapsed).filter fun r => c.enables r.level).map fun r =>
          ⟨style, c.eventOf clock.time r⟩ := by
  intro c
  have installed : c.installed = _ := installed_after settings done
  rw [prints_of_records settings clock c record]
  cases chosen : latest? (·.2.style? settings) done with
  | none =>
    rw [chosen] at installed
    exact printed_of_unconfigured installed _ _
  | some style =>
    rw [chosen] at installed
    exact printed_of_configured installed _ _

end Console

end RasterEdit.Journal
