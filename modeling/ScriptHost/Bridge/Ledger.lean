import ScriptHost.Bridge.Handle
/-!
The books about handles: what the host and the finalizers did to them, and what went past the bridge.
They say what happened; nothing that runs reads them.
-/
namespace ScriptHost.Bridge

/-- An entry in the books. -/
inductive Deed
  /-- The host was given a handle of an object. -/
  | given (h : Handle)
  /-- The host released a handle. -/
  | revoked (h : Handle)
  /-- The finalizer of a wrapper released a handle. -/
  | finalized (h : Handle)
  /-- The finalizer of a wrapper did not come to its end. -/
  | refused (slot : UInt64)
  /-- A wrapper was made of a bare word, or a finalizer was handed out. -/
  | bypassed
  deriving DecidableEq, Repr

/-- The books, the latest entry first. -/
abbrev Ledger := List Deed

end ScriptHost.Bridge
