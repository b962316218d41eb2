import TestRun.Files.Disk
set_option autoImplicit false

namespace TestRun.Files

open Text (CodeText)

namespace Location

def step (l : Location) (name : Name) : Location := if name = up then l.above else l ++ [name]

def trail : Location → List Name → List Location
  | _, [] => []
  | l, name :: rest => l.step name :: trail (l.step name) rest

theorem trail_append (l : Location) (names more : List Name) :
    l.trail (names ++ more) = l.trail names ++ (names.foldl step l).trail more := by
  induction names generalizing l with
  | nil => rfl
  | cons name names ih => exact congrArg (List.cons _) (ih (l.step name))

theorem foldl_step_mem (l : Location) (names : List Name) :
    names.foldl step l ∈ l :: l.trail names := by
  induction names generalizing l with
  | nil => exact List.mem_cons_self
  | cons name names ih => exact List.mem_cons_of_mem _ (ih (l.step name))

theorem length_foldl_step {names : List Name} (h : up ∉ names) (l : Location) :
    (names.foldl step l).length = l.length + names.length := by
  induction names generalizing l with
  | nil => rfl
  | cons name names ih =>
    obtain ⟨hname, hrest⟩ := List.ne_and_not_mem_of_not_mem_cons h
    have hstep : l.step name = l ++ [name] := if_neg (Ne.symm hname)
    calc ((name :: names).foldl step l).length
      _ = (l.step name).length + names.length := ih hrest (l.step name)
      _ = l.length + 1 + names.length := by rw [hstep, List.length_append, List.length_singleton]
      _ = l.length + (name :: names).length := by rw [List.length_cons]; omega

theorem length_of_mem_trail {names : List Name} (h : up ∉ names) {l m : Location}
    (hm : m ∈ l.trail names) : m.length ≤ (names.foldl step l).length := by
  induction names generalizing l with
  | nil => cases hm
  | cons name names ih =>
    have hrest := List.not_mem_of_not_mem_cons h
    rcases List.mem_cons.1 hm with rfl | hm
    · rw [List.foldl_cons, length_foldl_step hrest]
      exact Nat.le_add_right _ _
    · exact ih hrest hm

end Location

namespace Path

def location (p : Path) : Location := p.steps.foldl Location.step p.origin

def trail (p : Path) : List Location := p.origin.trail p.steps

variable {p : Path} {name : CodeText}

theorem isGiven_origin (p : Path) : p.origin.isGiven = true := by
  unfold origin
  split <;> decide

theorem steps_child (p : Path) (name : CodeText) : (p.child name).steps = p.steps ++ [name.bytes] :=
  List.map_append

theorem location_mem (p : Path) : p.location ∈ p.origin :: p.trail :=
  Location.foldl_step_mem p.origin p.steps

theorem location_child (h : name.bytes ≠ Location.up) :
    (p.child name).location = p.location ++ [name.bytes] := by
  unfold location
  rw [steps_child, List.foldl_append]
  exact if_neg h

theorem trail_child (h : name.bytes ≠ Location.up) :
    (p.child name).trail = p.trail ++ [p.location ++ [name.bytes]] := by
  have hstep : p.location.step name.bytes = p.location ++ [name.bytes] := if_neg h
  unfold trail
  rw [steps_child, Location.trail_append, ← hstep]
  rfl

end Path

namespace Disk

variable {d d' : Disk} {l m : Location} {p : Path} {name : Name} {names : List Name}
  {P : Location → Prop} {content : ByteArray}

theorem get?_of_isGiven (h : l.isGiven = true) (d : Disk) : d.get? l = some .directory :=
  if_pos h

theorem lookup_eq_get? (h : d.get? l ≠ some .directory) : d.entries.lookup l = d.get? l :=
  (if_neg fun hgiven => h (get?_of_isGiven hgiven d)).symm

theorem isGiven_eq_false (h : d.get? l ≠ some .directory) : l.isGiven = false :=
  Bool.eq_false_iff.2 fun hgiven => h (get?_of_isGiven hgiven d)

theorem lookup_cons_eq (entries : List (Location × Entry)) (l m : Location) (e : Entry) :
    ((l, e) :: entries).lookup m = if m = l then some e else entries.lookup m := by
  rw [List.lookup_cons]
  by_cases h : m = l
  · rw [if_pos h, h, beq_self_eq_true]
  · rw [if_neg h, beq_false_of_ne h]

theorem lookup_map_put (entries : List (Location × Entry)) (l m : Location) (e : Entry) :
    (entries.map fun x => if x.1 = l then (l, e) else x).lookup m =
      if m = l then (entries.lookup l).map fun _ => e else entries.lookup m := by
  induction entries with
  | nil => exact (ite_self _).symm
  | cons x entries ih =>
    obtain ⟨k, held⟩ := x
    rw [List.map_cons]
    dsimp only
    by_cases hk : k = l
    · subst hk
      rw [if_pos rfl, lookup_cons_eq, lookup_cons_eq, lookup_cons_eq, if_pos rfl, ih]
      by_cases hm : m = k
      · rw [if_pos hm, if_pos hm]
        rfl
      · rw [if_neg hm, if_neg hm, if_neg hm, if_neg hm]
    · rw [if_neg hk, lookup_cons_eq, lookup_cons_eq, lookup_cons_eq, if_neg (Ne.symm hk), ih]
      by_cases hm : m = k
      · rw [if_pos hm, if_pos hm, if_neg (hm ▸ hk)]
      · rw [if_neg hm, if_neg hm]

theorem lookup_put (d : Disk) (l m : Location) (e : Entry) :
    (d.put l e).entries.lookup m = if m = l then some e else d.entries.lookup m := by
  unfold put
  cases hheld : d.entries.lookup l with
  | some held =>
    dsimp only
    rw [if_pos Option.isSome_some, lookup_map_put, hheld]
    rfl
  | none =>
    dsimp only
    rw [Option.isSome_none, if_neg Bool.false_ne_true, List.lookup_append, lookup_cons_eq]
    by_cases hm : m = l
    · rw [if_pos hm, if_pos hm, hm, hheld]
      rfl
    · rw [if_neg hm, if_neg hm, List.lookup_nil, Option.or_none]

@[simp] theorem policy_put (d : Disk) (l : Location) (e : Entry) : (d.put l e).policy = d.policy :=
  rfl

theorem get?_put_of_ne (h : m ≠ l) (d : Disk) (e : Entry) : (d.put l e).get? m = d.get? m := by
  unfold get?
  rw [lookup_put, if_neg h]

theorem get?_put_self (h : l.isGiven = false) (d : Disk) (e : Entry) :
    (d.put l e).get? l = some e := by
  unfold get?
  rw [lookup_put, if_pos rfl, h]
  rfl

/-- Two policies refuse the same at a location where the same stands, whatever stands elsewhere. -/
structure AgreeAt (q q' : Policy) (l : Location) : Prop where
  search : q.search? l = q'.search? l
  make : ∀ es es' : Entries, es.lookup l = es'.lookup l → q.make? es l = q'.make? es' l
  opening : ∀ es es' : Entries, es.lookup l = es'.lookup l → q.open? es l = q'.open? es' l
  breaks : ∀ (es es' : Entries) (content : ByteArray), es.lookup l = es'.lookup l →
    q.breaks? es l content = q'.breaks? es' l content

/-- The two disks are the same at the locations of a kind: the same stands there, and the same is
refused. -/
def AgreeOn (P : Location → Prop) (d d' : Disk) : Prop :=
  ∀ l, P l → d.get? l = d'.get? l ∧ AgreeAt d.policy d'.policy l

theorem AgreeOn.put (h : AgreeOn P d d') (l : Location) (e : Entry) :
    AgreeOn P (d.put l e) (d'.put l e) := by
  intro m hm
  refine ⟨?_, (h m hm).2⟩
  unfold get?
  rw [lookup_put, lookup_put]
  by_cases hml : m = l
  · rw [if_pos hml, if_pos hml]
  · rw [if_neg hml, if_neg hml]
    exact (h m hm).1

theorem AgreeOn.lookup_eq (h : AgreeOn P d d') (hl : P l) (hfree : d.get? l ≠ some .directory) :
    d.entries.lookup l = d'.entries.lookup l := by
  have hheld := (h l hl).1
  rw [lookup_eq_get? hfree, hheld, lookup_eq_get? (hheld ▸ hfree)]

/-- What stands on a disk stays, as far as paths lead through it: the directories are there on the
other disk as well, and the same is refused. -/
structure Spares (d d' : Disk) : Prop where
  policy_eq : d'.policy = d.policy
  directory : ∀ l, d.get? l = some .directory → d'.get? l = some .directory

theorem Spares.refl (d : Disk) : d.Spares d := ⟨rfl, fun _ h => h⟩

theorem Spares.trans {d'' : Disk} (h : d.Spares d') (h' : d'.Spares d'') : d.Spares d'' :=
  ⟨h'.policy_eq.trans h.policy_eq, fun l hl => h'.directory l (h.directory l hl)⟩

theorem spares_put (h : d.get? l ≠ some .directory) (e : Entry) : d.Spares (d.put l e) := by
  refine ⟨rfl, fun m hm => ?_⟩
  have hne : m ≠ l := fun heq => h (heq ▸ hm)
  rw [get?_put_of_ne hne]
  exact hm

/-- Why a walk cannot leave a location by a name, if it cannot. -/
def stop? (d : Disk) (l : Location) (name : Name) : Option FileError.Reason :=
  match d.get? l with
  | none => some .missing
  | some (.file _) => some .notDirectory
  | some .directory =>
    match d.policy.search? l with
    | some r => some r
    | none => if name ≠ Location.up ∧ nameLimit < name.length then some .nameTooLong else none

theorem walk_cons (d : Disk) (l : Location) (name : Name) (rest : List Name) :
    d.walk l (name :: rest) =
      match d.stop? l name with
      | some r => .error r
      | none => d.walk (l.step name) rest := by
  rw [walk, stop?]
  rcases d.get? l with _ | _ | content
  · rfl
  · cases d.policy.search? l with
    | some r => rfl
    | none =>
      dsimp only
      by_cases hup : name = Location.up
      · rw [if_pos hup, if_neg (fun h => h.1 hup), Location.step, if_pos hup]
      · rw [if_neg hup, Location.step, if_neg hup]
        by_cases hlong : nameLimit < name.length
        · rw [if_pos hlong, if_pos ⟨hup, hlong⟩]
        · rw [if_neg hlong, if_neg fun h => hlong h.2]
  · rfl

theorem stop?_eq_none : d.stop? l name = none ↔ d.get? l = some .directory ∧
    d.policy.search? l = none ∧ (name = Location.up ∨ name.length ≤ nameLimit) := by
  unfold stop?
  rcases d.get? l with _ | _ | content
  · exact iff_of_false nofun nofun
  · cases d.policy.search? l with
    | some r => exact iff_of_false nofun nofun
    | none => simp [Decidable.or_iff_not_imp_left]
  · exact iff_of_false nofun nofun

theorem stop?_congr (h : AgreeOn P d d') (hl : P l) (name : Name) :
    d.stop? l name = d'.stop? l name := by
  unfold stop?
  rw [(h l hl).1, (h l hl).2.search]

theorem walk_append (d : Disk) (l : Location) (names more : List Name) :
    d.walk l (names ++ more) = (d.walk l names).bind fun m => d.walk m more := by
  induction names generalizing l with
  | nil => rfl
  | cons name names ih =>
    rw [List.cons_append, walk_cons, walk_cons]
    cases d.stop? l name with
    | some r => rfl
    | none => exact ih _

theorem walk_eq_ok (h : d.walk l names = .ok m) : m = names.foldl Location.step l := by
  induction names generalizing l with
  | nil => exact (Except.ok.inj h).symm
  | cons name names ih =>
    rw [walk_cons] at h
    cases hstop : d.stop? l name with
    | some r =>
      rw [hstop] at h
      cases h
    | none =>
      rw [hstop] at h
      exact ih h

theorem walk_congr (h : AgreeOn P d d') (hP : ∀ m ∈ l :: l.trail names, P m) :
    d.walk l names = d'.walk l names := by
  induction names generalizing l with
  | nil => rfl
  | cons name names ih =>
    rw [walk_cons, walk_cons, stop?_congr h (hP l List.mem_cons_self),
      ih fun m hm => hP m (List.mem_cons_of_mem _ hm)]

theorem walk_mono (h : d.walk l names = .ok m) (hd : d.Spares d') :
    d'.walk l names = .ok m := by
  induction names generalizing l with
  | nil => exact h
  | cons name names ih =>
    rw [walk_cons] at h ⊢
    cases hstop : d.stop? l name with
    | some r =>
      rw [hstop] at h
      cases h
    | none =>
      obtain ⟨hheld, hsearch, hshort⟩ := stop?_eq_none.1 hstop
      rw [hstop] at h
      rw [stop?_eq_none.2 ⟨hd.directory l hheld, hd.policy_eq ▸ hsearch, hshort⟩]
      exact ih h

theorem find_eq_ok {found : Location × Option Entry} (h : d.find p = .ok found) :
    d.barred? p = none ∧ d.walk p.origin p.steps = .ok p.location ∧
      found = (p.location, d.get? p.location) := by
  unfold find at h
  cases hbar : d.barred? p with
  | some r =>
    rw [hbar] at h
    cases h
  | none =>
    rw [hbar] at h
    cases hwalk : d.walk p.origin p.steps with
    | error r =>
      rw [hwalk] at h
      cases h
    | ok l =>
      rw [hwalk] at h
      obtain rfl : l = p.location := walk_eq_ok hwalk
      exact ⟨rfl, rfl, (Except.ok.inj h).symm⟩

theorem find_of_walk (hbar : d.barred? p = none) (hwalk : d.walk p.origin p.steps = .ok p.location) :
    d.find p = .ok (p.location, d.get? p.location) := by
  unfold find
  rw [hbar, hwalk]
  rfl

theorem find_cases (d : Disk) (p : Path) :
    (∃ r, d.find p = .error r) ∨ d.find p = .ok (p.location, d.get? p.location) := by
  cases hfind : d.find p with
  | error r => exact .inl ⟨r, rfl⟩
  | ok found => exact .inr (congrArg Except.ok (find_eq_ok hfind).2.2)

theorem barred?_congr (h : AgreeOn P d d') (hP : P p.origin) : d.barred? p = d'.barred? p := by
  unfold barred?
  by_cases hhere : p = .here
  · subst hhere
    have hsearch : d.policy.search? [] = d'.policy.search? [] := (h _ hP).2.search
    rw [hsearch]
  · rw [if_neg hhere, if_neg hhere]

theorem find_congr (h : AgreeOn P d d') (hP : ∀ m ∈ p.origin :: p.trail, P m) :
    d.find p = d'.find p := by
  unfold find
  rw [barred?_congr h (hP _ List.mem_cons_self), walk_congr h hP]
  cases d'.barred? p with
  | some r => rfl
  | none =>
    dsimp only
    cases hwalk : d'.walk p.origin p.steps with
    | error r => rfl
    | ok l =>
      obtain rfl : l = p.location := walk_eq_ok hwalk
      rw [Except.map, Except.map, (h _ (hP _ p.location_mem)).1]

theorem read_congr (h : AgreeOn P d d') (hP : ∀ m ∈ p.origin :: p.trail, P m) :
    d.read p = d'.read p := by
  unfold read
  rw [find_congr h hP]

theorem find_mono {found : Option Entry} (h : d.find p = .ok (p.location, found))
    (hd : d.Spares d') : d'.find p = .ok (p.location, d'.get? p.location) := by
  obtain ⟨hbar, hwalk, -⟩ := find_eq_ok h
  refine find_of_walk ?_ (walk_mono hwalk hd)
  unfold barred? at hbar ⊢
  rw [hd.policy_eq]
  exact hbar

structure Reaches (d : Disk) (p : Path) : Prop where
  walk_eq : d.walk p.origin p.steps = .ok p.location
  get?_eq : d.get? p.location = some .directory

theorem Reaches.mono (h : d.Reaches p) (hd : d.Spares d') : d'.Reaches p :=
  ⟨walk_mono h.walk_eq hd, hd.directory _ h.get?_eq⟩

/-- Neither the path of a file in a directory nor its name is too long, and the directory may be
searched. -/
structure Names (d : Disk) (p : Path) (name : CodeText) : Prop where
  path : (p.child name).code.bytes.length ≤ pathLimit
  name : name.bytes.length ≤ nameLimit
  search : d.policy.search? p.location = none

theorem Reaches.find_child (h : d.Reaches p) {name : CodeText} (hname : name.bytes ≠ Location.up)
    (hnames : d.Names p name) : d.find (p.child name) =
      .ok (p.location ++ [name.bytes], d.get? (p.location ++ [name.bytes])) := by
  have hstop : d.stop? p.location name.bytes = none :=
    stop?_eq_none.2 ⟨h.get?_eq, hnames.search, .inr hnames.name⟩
  have hstep : p.location.step name.bytes = p.location ++ [name.bytes] := if_neg hname
  have hwalk : d.walk (p.child name).origin (p.child name).steps =
      .ok (p.location ++ [name.bytes]) := by
    change d.walk p.origin (p.child name).steps = _
    rw [Path.steps_child, walk_append, h.walk_eq]
    change d.walk p.location [name.bytes] = _
    rw [walk_cons, hstop, hstep]
    rfl
  have hbar : d.barred? (p.child name) = none := by
    have hnot : p.child name ≠ .here := fun heq =>
      absurd (congrArg (List.length ∘ Path.names) heq) (by simp [Path.child, Path.here])
    unfold barred?
    rw [if_neg (Nat.not_lt.2 hnames.path), if_neg hnot]
  have hlocation := Path.location_child (p := p) hname
  rw [← hlocation] at hwalk ⊢
  exact find_of_walk hbar hwalk

/-- A write that fails leaves the disk as it is, or a front part of the bytes in the file. -/
theorem write_cases (d : Disk) (p : Path) (content : ByteArray) :
    (∃ e, d.write p content = (.error e, d)) ∨
      d.find p = .ok (p.location, d.get? p.location) ∧ d.get? p.location ≠ some .directory ∧
        ((∃ e n, d.write p content =
            (.error e, d.put p.location (.file (content.extract 0 n)))) ∨
          d.write p content = (.ok (), d.put p.location (.file content))) := by
  unfold write
  rcases d.find_cases p with ⟨r, hfind⟩ | hfind
  · rw [hfind]
    exact .inl ⟨_, rfl⟩
  rw [hfind]
  dsimp only
  by_cases hheld : d.get? p.location = some .directory
  · rw [if_pos hheld]
    exact .inl ⟨_, rfl⟩
  · rw [if_neg hheld]
    cases d.policy.open? d.entries p.location with
    | some r => exact .inl ⟨_, rfl⟩
    | none =>
      refine .inr ⟨rfl, hheld, ?_⟩
      dsimp only
      unfold fill
      rcases d.policy.breaks? d.entries p.location content with _ | ⟨n, r⟩
      · exact .inr rfl
      · exact .inl ⟨_, n, rfl⟩

theorem write_spares (d : Disk) (p : Path) (content : ByteArray) :
    d.Spares (d.write p content).2 := by
  rcases d.write_cases p content with ⟨e, h⟩ | ⟨-, hfree, ⟨e, n, h⟩ | h⟩
  · rw [h]
    exact .refl d
  · rw [h]
    exact spares_put hfree _
  · rw [h]
    exact spares_put hfree _

theorem get?_write (d : Disk) (p : Path) (content : ByteArray) (l : Location) :
    (d.write p content).2.get? l = d.get? l ∨
      l = p.location ∧ ∃ n, (d.write p content).2.get? l = some (.file (content.extract 0 n)) := by
  have hput : ∀ n, d.get? p.location ≠ some .directory →
      (d.put p.location (.file (content.extract 0 n))).get? l = d.get? l ∨ l = p.location ∧
        ∃ n', (d.put p.location (.file (content.extract 0 n))).get? l =
          some (.file (content.extract 0 n')) := by
    intro n hfree
    by_cases hl : l = p.location
    · subst hl
      exact .inr ⟨rfl, n, get?_put_self (isGiven_eq_false hfree) d _⟩
    · exact .inl (get?_put_of_ne hl d _)
  rcases d.write_cases p content with ⟨e, h⟩ | ⟨-, hfree, ⟨e, n, h⟩ | h⟩
  · rw [h]
    exact .inl rfl
  · rw [h]
    exact hput n hfree
  · rw [h]
    have hall := hput content.size hfree
    rwa [ByteArray.extract_zero_size] at hall

theorem write_eq_ok (h : (d.write p content).1 = .ok ()) :
    d.find p = .ok (p.location, d.get? p.location) ∧ d.get? p.location ≠ some .directory ∧
      (d.write p content).2 = d.put p.location (.file content) := by
  rcases d.write_cases p content with ⟨e, hwrite⟩ | ⟨hfind, hfree, ⟨e, n, hwrite⟩ | hwrite⟩
  · rw [hwrite] at h
    cases h
  · rw [hwrite] at h
    cases h
  · exact ⟨hfind, hfree, congrArg Prod.snd hwrite⟩

theorem fill_agree (h : AgreeOn P d d') (hl : P l) (hfree : d.get? l ≠ some .directory)
    (content : ByteArray) :
    (d.fill l content).1 = (d'.fill l content).1 ∧
      AgreeOn P (d.fill l content).2 (d'.fill l content).2 := by
  unfold fill
  rw [(h l hl).2.breaks _ _ content (h.lookup_eq hl hfree)]
  rcases d'.policy.breaks? d'.entries l content with _ | ⟨n, r⟩
  · exact ⟨rfl, h.put l _⟩
  · exact ⟨rfl, h.put l _⟩

theorem write_agree (h : AgreeOn P d d') (hP : ∀ m ∈ p.origin :: p.trail, P m)
    (content : ByteArray) :
    (d.write p content).1 = (d'.write p content).1 ∧
      AgreeOn P (d.write p content).2 (d'.write p content).2 := by
  have hl : P p.location := hP _ p.location_mem
  unfold write
  rw [← find_congr h hP]
  rcases d.find_cases p with ⟨r, hfind⟩ | hfind
  · rw [hfind]
    exact ⟨rfl, h⟩
  rw [hfind]
  dsimp only
  by_cases hheld : d.get? p.location = some .directory
  · rw [if_pos hheld, if_pos hheld]
    exact ⟨rfl, h⟩
  · rw [if_neg hheld, if_neg hheld, (h _ hl).2.opening _ _ (h.lookup_eq hl hheld)]
    cases d'.policy.open? d'.entries p.location with
    | some r => exact ⟨rfl, h⟩
    | none => exact fill_agree h hl hheld content

/-- A file can be made of these bytes at a location, if a path leads there. -/
structure Takes (d : Disk) (l : Location) (content : ByteArray) : Prop where
  free : d.get? l ≠ some .directory
  opening : d.policy.open? d.entries l = none
  breaks : d.policy.breaks? d.entries l content = none

theorem Reaches.write_child (h : d.Reaches p) {name : CodeText} (hname : name.bytes ≠ Location.up)
    (hnames : d.Names p name) (htakes : d.Takes (p.location ++ [name.bytes]) content) :
    d.write (p.child name) content =
      (.ok (), d.put (p.location ++ [name.bytes]) (.file content)) := by
  unfold write
  rw [h.find_child hname hnames]
  dsimp only
  rw [if_neg htakes.free, htakes.opening]
  dsimp only
  unfold fill
  rw [htakes.breaks]

theorem read_eq_ok : d.read p = .ok content ↔
    d.find p = .ok (p.location, some (.file content)) := by
  unfold read
  rcases d.find_cases p with ⟨r, hfind⟩ | hfind
  · rw [hfind]
    exact iff_of_false nofun nofun
  · rw [hfind]
    rcases d.get? p.location with _ | _ | held
    · exact iff_of_false nofun nofun
    · exact iff_of_false nofun nofun
    · simp

theorem read_mono (h : d.read p = .ok content) (hd : d.Spares d')
    (hsame : d'.get? p.location = d.get? p.location) : d'.read p = .ok content := by
  have hfind := read_eq_ok.1 h
  have hheld : d.get? p.location = some (.file content) :=
    (congrArg Prod.snd (find_eq_ok hfind).2.2).symm
  rw [read_eq_ok, find_mono hfind hd, hsame, hheld]

theorem read_write (h : (d.write p content).1 = .ok ()) :
    (d.write p content).2.read p = .ok content := by
  obtain ⟨hfind, hfree, heq⟩ := write_eq_ok h
  rw [heq, read_eq_ok, find_mono hfind (spares_put hfree _),
    get?_put_self (isGiven_eq_false hfree)]

end Disk

end TestRun.Files
