import Bella.Options
import Bella.Value.Basic

/-!
# Frames and the store

A frame binds names to values and may have a parent, the frame that lies behind it. Frames live in a
store, which addresses them in the order in which they were made, so a parent is always older than
its child. The chain of a frame is the frame itself, its parent, and so on outward; a name resolves
to the first frame on the chain that binds it.

Nothing removes a frame, and nothing removes a binding from a frame.

## Main definitions

* `Bella.Frame`: one scope of bindings.
* `Bella.Store`: all frames.
* `Bella.Store.chain`, `Bella.Store.resolve?`: how names are looked up.
* `Bella.Store.lookup?`, `Bella.Store.bind`, `Bella.Store.assign?`: reading and writing bindings.
-/

namespace Bella

/-- One scope of bindings. -/
structure Frame where
  /-- The frame that lies behind this one. -/
  parent : Option FrameId
  /-- A name for the scope, which only descriptions show. -/
  label : String
  /-- The options that were in force when the frame was made, or were set since. -/
  options : Option Options
  /-- The bindings, newest first; each name occurs once. -/
  bindings : List (String × Value)
deriving Inhabited

namespace Frame

/-- The value of a name in this frame alone. -/
def get? (f : Frame) (name : String) : Option Value :=
  (f.bindings.find? fun b => b.1 == name).map Prod.snd

/-- Whether the frame itself binds the name. -/
def binds (f : Frame) (name : String) : Bool := f.bindings.any fun b => b.1 == name

/-- The frame with one more binding. -/
def bind (f : Frame) (name : String) (v : Value) : Frame :=
  { f with bindings := (name, v) :: f.bindings }

/-- The frame with another value for a name that it binds. -/
def update (f : Frame) (name : String) (v : Value) : Frame :=
  { f with bindings := f.bindings.map fun b => if b.1 == name then (name, v) else b }

/-- The bindings in the order of the names. -/
def sorted (f : Frame) : List (String × Value) :=
  f.bindings.mergeSort fun a b => decide (a.1 ≤ b.1)

/-- A short text that describes a frame. -/
def text (f : Frame) : String :=
  "<Frame " ++ f.label ++ " names=[" ++ Node.commas (f.sorted.map fun b => Text.quote b.1) ++ "]>"

end Frame

/-- All frames, by address. -/
structure Store where
  /-- The frames, oldest first. -/
  frames : Array Frame := #[]
deriving Inhabited

namespace Store

/-- The frame at an address. -/
def get? (s : Store) (id : FrameId) : Option Frame := s.frames[id]?

/-- The options of a frame, if it has any. -/
def options? (s : Store) (id : FrameId) : Option Options := (s.get? id).bind Frame.options

/-- The options in force in a frame, which are the default ones if it has none. -/
def options (s : Store) (id : FrameId) : Options := (s.options? id).getD {}

/-! ### Making frames -/

/-- The address of the next frame. -/
def next (s : Store) : FrameId := s.frames.size

/-- The store with a new frame, at the address `s.next`. A frame made without options takes over
those of its parent. -/
def push (s : Store) (parent : Option FrameId) (label : String) (options : Option Options) : Store :=
  let inherited := options <|> parent.bind s.options?
  { frames := s.frames.push { parent, label, options := inherited, bindings := [] } }

/-- The store with other options for a frame. -/
def setOptions (s : Store) (id : FrameId) (options : Options) : Store :=
  { frames := s.frames.modify id fun f => { f with options := some options } }

/-! ### Chains and resolution -/

/-- The first `fuel` frames on the chain of a frame. -/
def chainUpTo (s : Store) : (fuel : Nat) → FrameId → List FrameId
  | 0, _ => []
  | fuel + 1, id =>
    match s.get? id with
    | none => []
    | some f =>
      id :: match f.parent with
        | none => []
        | some parent => s.chainUpTo fuel parent

/-- The frame itself, its parent, and so on outward. Parents are older, so the address bounds the
length. -/
def chain (s : Store) (id : FrameId) : List FrameId := s.chainUpTo (id + 1) id

/-- The outermost frame of a chain. -/
def root (s : Store) (id : FrameId) : FrameId := ((s.chain id).getLast?).getD id

/-- Whether a frame itself binds a name. -/
def binds (s : Store) (id : FrameId) (name : String) : Bool :=
  ((s.get? id).map (·.binds name)).getD false

/-- The first frame on the chain that binds the name. -/
def resolve? (s : Store) (id : FrameId) (name : String) : Option FrameId :=
  (s.chain id).find? fun i => s.binds i name

/-! ### Reading and writing bindings -/

/-- The value of a name, seen from a frame. -/
def lookup? (s : Store) (id : FrameId) (name : String) : Option Value :=
  (s.resolve? id name).bind fun i => (s.get? i).bind (·.get? name)

/-- The store with one more binding in a frame. -/
def bind (s : Store) (id : FrameId) (name : String) (v : Value) : Store :=
  { frames := s.frames.modify id fun f => f.bind name v }

/-- The store with another value for a name that a frame binds. -/
def update (s : Store) (id : FrameId) (name : String) (v : Value) : Store :=
  { frames := s.frames.modify id fun f => f.update name v }

/-- The store with another value for a name, seen from a frame, if the name is bound there. -/
def assign? (s : Store) (id : FrameId) (name : String) (v : Value) : Option Store :=
  (s.resolve? id name).map fun i => s.update i name v

end Store
end Bella
