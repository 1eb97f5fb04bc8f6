import FreeSensePorts.BootEnv.Model

/-!
# `freesense-be`

The commands an administrator has on boot environments.  Each looks at the list as it was when the tool
was started: the booted environment and one whose health is pending are neither renamed nor destroyed,
and one that is selected for a later boot is not destroyed.  Every command the tool runs is checked;
`freesenseBe` is `none` for a refusal or a failure.
-/

namespace FreeSense.BootEnv

/-- `[A-Za-z0-9._-]`. -/
def nameChar (c : Char) : Bool := c.isAlphanum ∨ c = '.' ∨ c = '_' ∨ c = '-'

/-- `/^[A-Za-z0-9][A-Za-z0-9._-]{0,63}$/D`. -/
def validName : Text → Bool
  | [] => false
  | c :: l => c.isAlphanum ∧ l.length ≤ 63 ∧ l.all nameChar

/-- What `trim` takes off. -/
def blank (c : Char) : Bool := c = ' ' ∨ c = '\t' ∨ c = '\n' ∨ c = '\r' ∨ c.toNat = 0 ∨ c.toNat = 11

def trim (s : Text) : Text := ((s.dropWhile blank).reverse.dropWhile blank).reverse

inductive Command
  | create (name : Text)
  | clone (name source : Text)
  | rename (name new : Text)
  | destroy (name : Text)
  | activate (name : Text)
  | activateOnce (name : Text)
  | describe (name : Text) (words : List Text)

def Command.name : Command → Text
  | .create name | .clone name _ | .rename name _ | .destroy name | .activate name
  | .activateOnce name | .describe name _ => name

/-- `$active`. -/
def isActive (name : Text) (s : Bes) : Bool := (s.find? name).any fun e => e.id = s.now

/-- `$protected`. -/
def isProtected (name : Text) (s : Bes) : Bool := (s.find? name).any fun e =>
  trim (e.props .health) = pending

/-- The flags `R` and `T`. -/
def isSelected (name : Text) (s : Bes) : Bool := (s.find? name).any fun e =>
  e.id = s.bootfs ∨ s.once = some e.name

/-- The two properties of an environment that was made by hand. -/
def markManual (name : Text) (s : Bes) : Option Bes :=
  (setProp name .origin manual s).bind (setProp name .health manual)

def description (words : List Text) : Text := trim (List.intercalate [' '] words)

def validDescription (text : Text) : Bool :=
  (text.map Char.utf8Size).sum ≤ 256 ∧ text.all fun c => 32 ≤ c.toNat

/-- The switch over `$command`. -/
def command (c : Command) (s : Bes) : Option Bes :=
  match c with
  | .create name => if name ∈ s.names then none else (create name s).bind (markManual name)
  | .clone name source =>
    if name ∈ s.names ∨ validName source = false ∨ source ∉ s.names then none
    else (create name s).bind (markManual name)
  | .rename name new =>
    if name ∉ s.names ∨ isActive name s ∨ isProtected name s ∨ validName new = false ∨
        new ∈ s.names then none
    else rename name new s
  | .destroy name =>
    if name ∉ s.names ∨ isActive name s ∨ isProtected name s ∨ isSelected name s then none
    else destroy name s
  | .activate name => if name ∉ s.names then none else activate name s
  | .activateOnce name => if name ∉ s.names then none else activateOnce name s
  | .describe name words =>
    if name ∉ s.names ∨ validDescription (description words) = false then none
    -- a text that is empty or `0` counts as none
    else setProp name .description
      (if description words = [] ∨ description words = ['0'] then dash else description words) s

def freesenseBe (c : Command) (s : Bes) : Option Bes :=
  if validName c.name then command c s else none

/-! ## What a command does -/

variable {s t : Bes} {e : Env} {name : Text}

theorem isProtected_of_pending (hs : Wf s) (he : e ∈ s.envs) (h : e.props .health = pending) :
    isProtected e.name s = true := by
  have hpending : trim pending = pending := by decide
  rw [isProtected, find?_eq hs.names he]
  simp [h, hpending]

theorem isActive_of_id (hs : Wf s) (he : e ∈ s.envs) (h : e.id = s.now) :
    isActive e.name s = true := by
  rw [isActive, find?_eq hs.names he]
  simp [h]

def manualEnv (name : Text) (s : Bes) : Env :=
  ⟨freshId s.envs, name,
    Function.update (Function.update (fun _ => dash) .origin manual) .health manual, false⟩

theorem markManual_create (h : name ∉ s.names) :
    (create name s).bind (markManual name) = some { s with envs := manualEnv name s :: s.envs } := by
  have hrest : ∀ f : Env → Env, (s.envs.map fun e => if e.name = name then f e else e) = s.envs :=
    fun f => congrArg Bes.envs (update_of_notMem (f := f) h)
  have hmem : ∀ l : List Env, ∀ c : Env, c.name = name →
      name ∈ ({ s with envs := c :: l } : Bes).names := fun l c hc =>
    mem_names.2 ⟨c, List.mem_cons_self, hc⟩
  rw [create, if_pos h, Option.bind_some, markManual, setProp, if_pos (hmem _ _ rfl),
    Option.bind_some, Bes.update, List.map_cons, if_pos rfl, hrest, setProp, if_pos (hmem _ _ rfl),
    Bes.update, List.map_cons, if_pos rfl, hrest]
  rfl

end FreeSense.BootEnv
