import ScriptHost.Settings.Toml
/-!
The options of a bridge and the configuration text that sets them.
-/
namespace ScriptHost

/-- The limits within which scripts and host code run. -/
structure Options where
  maxStackSlots : Nat := 65536
  maxCallDepth : Nat := 200
  taskQueueCapacity : Nat := 1024
  tickBudgetMs : Nat := 2
  stepLimit : Nat := 1000000
  deriving DecidableEq, Repr

/-- Why a configuration is refused. -/
inductive Options.Error
  | malformed
  | noCallDepth
  | noTaskCapacity
  | fewStackSlots
  deriving DecidableEq, Repr

namespace Options

/-- What a refusal says. A text that is no configuration has no message here. -/
def Error.message : Error → String
  | .malformed => ""
  | .noCallDepth => "Invalid config: max_call_depth must be > 0"
  | .noTaskCapacity => "Invalid config: task_queue_capacity must be > 0"
  | .fewStackSlots => "Invalid config: max_stack_slots must be at least 16"

/-- How long a tick may take, in microseconds. -/
def tickBudgetUs (o : Options) : Nat :=
  o.tickBudgetMs * 1000

/-- Accepts options under which a script can run. -/
def validate (o : Options) : Except Error Options :=
  if o.maxCallDepth = 0 then .error .noCallDepth
  else if o.taskQueueCapacity = 0 then .error .noTaskCapacity
  else if o.maxStackSlots < 16 then .error .fewStackSlots
  else .ok o

/-- The names of the options, in order. -/
def names : List String :=
  ["max_stack_slots", "max_call_depth", "task_queue_capacity", "tick_budget_ms", "il_step_limit"]

/-- A setting of one option. -/
def setting? (default : Nat) : Option Toml → Option Nat
  | none => some default
  | some (.integer (.ofNat n)) => some n
  | some _ => none

/-- The options that settings give, listed in order. -/
def ofSettings? (settings : Nat → Option Toml) : Option Options := do
  let d : Options := {}
  pure {
    maxStackSlots := ← setting? d.maxStackSlots (settings 0)
    maxCallDepth := ← setting? d.maxCallDepth (settings 1)
    taskQueueCapacity := ← setting? d.taskQueueCapacity (settings 2)
    tickBudgetMs := ← setting? d.tickBudgetMs (settings 3)
    stepLimit := ← setting? d.stepLimit (settings 4) }

/-- The options of the bridge table of a document: entries by name, or a list in order. What is left
out keeps its default. -/
def ofDocument? (document : List (String × Toml)) : Option Options :=
  match document.lookup "bridge" with
  | none => some {}
  | some (.table entries) => ofSettings? fun i => names[i]?.bind fun name => entries.lookup name
  | some (.list items) => ofSettings? (items[·]?)
  | some _ => none

/-- Reads a configuration. -/
def parse (text : String) : Except Error Options :=
  match (Toml.parse? text).bind ofDocument? with
  | none => .error .malformed
  | some options => options.validate

end Options

end ScriptHost
