import Parlance.Text.Basic

/-!
The setup and teardown blocks of one scope.
-/

namespace Parlance

/-- When a hook runs: once around all tests of its scope, or around each of them. -/
inductive HookKind where
  | beforeAll
  | afterAll
  | beforeEach
  | afterEach
deriving DecidableEq, Repr

namespace HookKind

def all : List HookKind := [.beforeAll, .afterAll, .beforeEach, .afterEach]

/-- The name under which an unterminated hook is reported. -/
def name : HookKind → Text
  | .beforeAll => "BeforeAll"
  | .afterAll => "AfterAll"
  | .beforeEach => "BeforeEach"
  | .afterEach => "AfterEach"

def runsOnce : HookKind → Bool
  | .beforeAll | .afterAll => true
  | .beforeEach | .afterEach => false

end HookKind

/-- The hook bodies of one scope, each kind in source order. -/
structure Hooks where
  beforeAll : List Text := []
  afterAll : List Text := []
  beforeEach : List Text := []
  afterEach : List Text := []
deriving DecidableEq, Repr

namespace Hooks

def get (h : Hooks) : HookKind → List Text
  | .beforeAll => h.beforeAll
  | .afterAll => h.afterAll
  | .beforeEach => h.beforeEach
  | .afterEach => h.afterEach

def push (h : Hooks) (kind : HookKind) (body : Text) : Hooks :=
  match kind with
  | .beforeAll => { h with beforeAll := h.beforeAll ++ [body] }
  | .afterAll => { h with afterAll := h.afterAll ++ [body] }
  | .beforeEach => { h with beforeEach := h.beforeEach ++ [body] }
  | .afterEach => { h with afterEach := h.afterEach ++ [body] }

def isEmpty (h : Hooks) : Bool := HookKind.all.all fun kind => (h.get kind).isEmpty

/-- The hooks of two scopes, kind by kind. -/
protected def append (h g : Hooks) : Hooks :=
  ⟨h.beforeAll ++ g.beforeAll, h.afterAll ++ g.afterAll, h.beforeEach ++ g.beforeEach,
    h.afterEach ++ g.afterEach⟩

instance : Append Hooks := ⟨Hooks.append⟩

def single (kind : HookKind) (body : Text) : Hooks := push {} kind body

/-- A push adds its body at the end of its own kind and leaves the others alone. -/
theorem get_push (h : Hooks) (kind other : HookKind) (body : Text) :
    (h.push kind body).get other = h.get other ++ if kind = other then [body] else [] := by
  cases kind <;> cases other <;> simp [push, get]

end Hooks

end Parlance
