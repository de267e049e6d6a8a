import Smalltalk.Image
import Smalltalk.Proofs.Moves
import Smalltalk.Proofs.Unplaced

/-!
# `Smalltalk.Proofs.Filing`: how an image fills the methods of a class

Loading the methods of one side of a class files one method after another under
the protocol of images (`MethodTable.fileAll`). `Image.of_loadMethods` says that
whatever is loaded without a fault comes down to that, and
`Image.loadMethods_of_fields` that it always succeeds on what was written for a
list of methods, and files the same methods up to their sites.

A table that was filled this way (`MethodTable.Filed`) can be filled again from
the methods it lists, in their order (`MethodTable.Filed.fileAll_listed`).
-/

set_option autoImplicit false

namespace Smalltalk

/-! ### Tables without sites -/

namespace Dictionary

variable {α β : Type}

/-- The dictionary with another value under each key. -/
def map (f : α → β) (d : Dictionary α) : Dictionary β :=
  ⟨d.entries.map fun e => ⟨e.key, e.name, f e.value⟩⟩

theorem map_put (f : α → β) (d : Dictionary α) (key : Key) (name : Json) (value : α) :
    (d.put key name value).map f = (d.map f).put key name (f value) := by
  unfold map put
  simp only [mk.injEq]
  induction d.entries with
  | nil => rfl
  | cons e rest ih =>
      by_cases h : e.key = key <;> simp [putEntry, h, ih]

theorem find?_map (f : α → β) (d : Dictionary α) (key : Key) :
    (d.map f).find? key = (d.find? key).map f := by
  unfold map find?
  simp only [List.find?_map, Option.map_map]
  rfl

theorem contains_map (f : α → β) (d : Dictionary α) (key : Key) :
    (d.map f).contains key = d.contains key := by
  unfold contains
  rw [find?_map, Option.isSome_map]

/-- An entry after a `put` is the new one, an old one with the new value, or an old one. -/
theorem of_mem_putEntry {key : Key} {name : Json} {value : α} {e : Entry α} :
    {es : List (Entry α)} → e ∈ putEntry key name value es →
      e = ⟨key, name, value⟩ ∨ (∃ e' ∈ es, e'.key = key ∧ e = { e' with value }) ∨ e ∈ es
  | [], h => .inl (List.mem_singleton.mp h)
  | e' :: rest, h => by
      unfold putEntry at h
      split at h
      · rename_i hkey
        rcases List.mem_cons.mp h with heq | hmem
        · exact .inr (.inl ⟨e', List.mem_cons_self, hkey, heq⟩)
        · exact .inr (.inr (List.mem_cons_of_mem _ hmem))
      · rcases List.mem_cons.mp h with heq | hmem
        · exact .inr (.inr (heq ▸ List.mem_cons_self))
        · rcases of_mem_putEntry hmem with heq | ⟨e'', he'', hkey, heq⟩ | hold
          · exact .inl heq
          · exact .inr (.inl ⟨e'', List.mem_cons_of_mem _ he'', hkey, heq⟩)
          · exact .inr (.inr (List.mem_cons_of_mem _ hold))

/-- A key that is new goes to the end. -/
theorem put_of_not_mem {d : Dictionary α} {key : Key} (h : key ∉ d.keys) (name : Json)
    (value : α) : d.put key name value = ⟨d.entries ++ [⟨key, name, value⟩]⟩ := by
  obtain ⟨entries⟩ := d
  unfold put
  simp only [mk.injEq]
  induction entries with
  | nil => rfl
  | cons e rest ih =>
      have hne : e.key ≠ key := fun heq => h (heq ▸ List.mem_cons_self)
      have hrest : key ∉ (Dictionary.mk rest).keys := fun hmem => h (List.mem_cons_of_mem _ hmem)
      simp only [putEntry, hne, if_false, ih hrest, List.cons_append]

end Dictionary

/-- The method without the sites of its text literals. -/
def Method.unplaced (m : Method) : Method :=
  { m with statements := Node.listUnplaced m.statements }

theorem Method.unplaced_unplaced (m : Method) : m.unplaced.unplaced = m.unplaced := by
  unfold unplaced
  simp only [Node.listUnplaced_listUnplaced]

namespace MethodTable

/-- The table without the sites of text literals. -/
def unplaced (t : MethodTable) : MethodTable where
  methods := t.methods.map Method.unplaced
  protocols := t.protocols.map fun listed => listed.map Method.unplaced

/-- Files a method the way images do: under its selector, in their own protocol. A
method whose selector is no text is not filed. -/
def file (t : MethodTable) (m : Method) : MethodTable :=
  match m.selector with
  | .str s => (t.addProtocol (.text "image") (.str "image")).install (.text "image") (.text s) m
  | _ => t

/-- Files methods in order. -/
def fileAll (t : MethodTable) (ms : List Method) : MethodTable := ms.foldl file t

theorem unplaced_addProtocol (t : MethodTable) (key : Key) (name : Json) :
    (t.addProtocol key name).unplaced = t.unplaced.addProtocol key name := by
  unfold addProtocol unplaced
  simp only [Dictionary.contains_map]
  split
  · rfl
  · simp only [Dictionary.map_put]
    rfl

theorem unplaced_install (t : MethodTable) (protocol key : Key) (m : Method) :
    (t.install protocol key m).unplaced = t.unplaced.install protocol key m.unplaced := by
  unfold install unplaced
  simp only [Dictionary.map_put, Dictionary.find?_map]
  cases t.protocols.find? protocol with
  | none => rfl
  | some listed => simp only [Option.map_some, Dictionary.map_put]; rfl

theorem unplaced_file (t : MethodTable) (m : Method) :
    (t.file m).unplaced = t.unplaced.file m.unplaced := by
  unfold file
  cases hs : m.selector with
  | str s =>
      have hs' : m.unplaced.selector = .str s := hs
      simp only [hs', unplaced_install, unplaced_addProtocol]
  | _ =>
      have hs' : m.unplaced.selector = _ := hs
      simp only [hs']

theorem unplaced_fileAll (t : MethodTable) (ms : List Method) :
    (t.fileAll ms).unplaced = t.unplaced.fileAll (ms.map Method.unplaced) := by
  unfold fileAll
  induction ms generalizing t with
  | nil => rfl
  | cons m rest ih => simp only [List.foldl_cons, List.map_cons, ih, unplaced_file]

/-! ### Tables that images fill -/

/-- The table with these methods, all of them under the protocol of images. -/
def ofMethods (d : Dictionary Method) : MethodTable where
  methods := d
  protocols := if d.entries.isEmpty then {} else ⟨[⟨.text "image", .str "image", d⟩]⟩

/-- A table of a class that images have filled. -/
structure Filed (owner : Behavior) (t : MethodTable) : Prop where
  eq : t = ofMethods t.methods
  distinct : t.methods.keys.Nodup
  entry : ∀ e ∈ t.methods.entries, e.value.owner = owner ∧
    ∃ s, e.key = .text s ∧ e.name = .str s ∧ e.value.selector = .str s

theorem Filed.empty (owner : Behavior) : Filed owner {} :=
  ⟨rfl, List.nodup_nil, fun _ h => absurd h List.not_mem_nil⟩

theorem file_ofMethods (d : Dictionary Method) {m : Method} {s : String}
    (hs : m.selector = .str s) :
    (ofMethods d).file m = ofMethods (d.put (.text s) (.str s) m) := by
  obtain ⟨entries⟩ := d
  unfold file
  simp only [hs]
  cases entries with
  | nil => simp [ofMethods, addProtocol, install, Dictionary.put, Dictionary.putEntry,
      Dictionary.find?, Dictionary.contains, hs]
  | cons e rest =>
      have hput : Dictionary.putEntry (.text s) (.str s) m (e :: rest) ≠ [] := by
        unfold Dictionary.putEntry
        split <;> exact List.cons_ne_nil _ _
      simpa [ofMethods, addProtocol, install, Dictionary.put, Dictionary.putEntry,
        Dictionary.find?, Dictionary.contains, hs] using hput

theorem Filed.file {owner : Behavior} {t : MethodTable} (h : Filed owner t) {m : Method}
    {s : String} (hs : m.selector = .str s) (howner : m.owner = owner) :
    Filed owner (t.file m) := by
  rw [h.eq, file_ofMethods _ hs]
  refine ⟨rfl, ?_, ?_⟩
  · show (t.methods.put (.text s) (.str s) m).keys.Nodup
    rw [Dictionary.keys_put]
    split
    · exact h.distinct
    · rename_i hnew
      refine List.nodup_append.mpr ⟨h.distinct, by simp, fun a ha b hb => ?_⟩
      rintro rfl
      exact hnew (List.mem_singleton.mp hb ▸ ha)
  · intro e he
    rcases Dictionary.of_mem_putEntry he with rfl | ⟨e', he', hkey, rfl⟩ | hold
    · exact ⟨howner, s, rfl, rfl, hs⟩
    · -- a method in the place of another one has its selector
      obtain ⟨-, s', hkey', hname, -⟩ := h.entry e' he'
      obtain rfl : s' = s := Key.text.inj (hkey'.symm.trans hkey)
      exact ⟨howner, s', hkey', hname, hs⟩
    · exact h.entry e hold

theorem Filed.fileAll {owner : Behavior} {t : MethodTable} (h : Filed owner t)
    {ms : List Method} (hms : ∀ m ∈ ms, m.owner = owner ∧ ∃ s, m.selector = .str s) :
    Filed owner (t.fileAll ms) := by
  induction ms generalizing t with
  | nil => exact h
  | cons m rest ih =>
      obtain ⟨howner, s, hs⟩ := hms m List.mem_cons_self
      exact ih (h.file hs howner) fun m' hm' => hms m' (List.mem_cons_of_mem _ hm')

/-- The methods that a table lists, in order. -/
def listed (t : MethodTable) : List Method := t.methods.entries.map (·.value)

/-- Filing methods under new selectors lists them behind those that are there. -/
theorem fileAll_ofMethods (done rest : List (Entry Method))
    (hdistinct : (Dictionary.mk (done ++ rest)).keys.Nodup)
    (hrest : ∀ e ∈ rest, ∃ s, e.key = .text s ∧ e.name = .str s ∧ e.value.selector = .str s) :
    (ofMethods ⟨done⟩).fileAll (rest.map (·.value)) = ofMethods ⟨done ++ rest⟩ := by
  induction rest generalizing done with
  | nil => rw [List.append_nil]; rfl
  | cons e rest ih =>
      obtain ⟨s, hkey, hname, hs⟩ := hrest e List.mem_cons_self
      have hnew : .text s ∉ (Dictionary.mk done).keys := by
        intro hmem
        unfold Dictionary.keys at hdistinct hmem
        rw [List.map_append, List.map_cons, hkey] at hdistinct
        exact (List.nodup_append.mp hdistinct).2.2 _ hmem _ List.mem_cons_self rfl
      have hfile : (ofMethods ⟨done⟩).file e.value = ofMethods ⟨done ++ [e]⟩ := by
        rw [file_ofMethods _ hs, Dictionary.put_of_not_mem hnew, ← hkey, ← hname]
      show ((ofMethods ⟨done⟩).file e.value).fileAll (rest.map (·.value)) = _
      rw [hfile, ih (done ++ [e]) (by simpa using hdistinct) fun e' he' =>
        hrest e' (List.mem_cons_of_mem _ he'), List.append_assoc]
      rfl

/-- A table that images have filled is filled again from the methods it lists. -/
theorem Filed.fileAll_listed {owner : Behavior} {t : MethodTable} (h : Filed owner t) :
    ({} : MethodTable).fileAll t.listed = t := by
  have hagain := fileAll_ofMethods [] t.methods.entries h.distinct fun e he => (h.entry e he).2
  exact hagain.trans h.eq.symm

end MethodTable

/-! ### Loading the methods of one side -/

namespace Memory

/-- A memory after methods were filed for an owner, with another count of texts. -/
def filed (m : Memory) (owner : Behavior) (ms : List Method) (texts : Nat) : Memory :=
  { m with
    registry := m.registry.updateTable owner fun t => t.fileAll ms
    heap := { m.heap with texts } }

theorem filed_filed (m : Memory) (owner : Behavior) (ms ms' : List Method) (n n' : Nat) :
    (m.filed owner ms n).filed owner ms' n' = m.filed owner (ms ++ ms') n' := by
  unfold filed
  simp only [Registry.updateTable_updateTable, mk.injEq, and_true, true_and]
  congr 1
  funext t
  exact List.foldl_append.symm

end Memory

namespace Change

variable {m : Memory}

/-- Installing a method under the protocol of images files it. -/
theorem install_image {method : Method} {s : String} (hs : method.selector = .str s) :
    install method (.str "image") m
      = .ok () { m with
          registry := m.registry.updateTable method.owner fun t => t.file method } := by
  have hfile : (fun t : MethodTable => t.file method)
      = (fun t => t.install (.text "image") (.text s) method) ∘
        fun t => t.addProtocol (.text "image") (.str "image") := by
    funext t
    unfold MethodTable.file
    rw [hs]
    rfl
  rw [hfile, ← Registry.updateTable_updateTable]
  unfold install
  rw [hs]
  rfl

theorem compile_image {method : Method} {s : String} (hs : method.selector = .str s) :
    compile method.owner method.toNode (.str "image") m
      = .ok method { m with
          registry := m.registry.updateTable method.owner fun t => t.file method } := by
  show (install method (.str "image") >>= fun _ => pure method) m = _
  rw [bind_of_ok (install_image hs)]
  rfl

/-- Placing the tree of a method only gives its text literals sites. -/
theorem place_toNode (method : Method) :
    ∃ placed : Method, ∃ n, placed.unplaced = method.unplaced ∧ placed.owner = method.owner ∧
      placed.selector = method.selector ∧
      place method.toNode m = .ok placed.toNode { m with heap := { m.heap with texts := n } } := by
  let sites := Node.listWithSites m.heap.texts method.statements
  refine ⟨{ method with statements := sites.1 }, sites.2, ?_, rfl, rfl, rfl⟩
  unfold Method.unplaced
  rw [Node.listUnplaced_withSites]

end Change

theorem Memory.filed_nil (m : Memory) (owner : Behavior) :
    m.filed owner [] m.heap.texts = m := by
  have hsame : m.registry.updateTable owner (fun t => t.fileAll []) = m.registry := by
    unfold Registry.updateTable
    have hmodify : ∀ cs : Array ClassEntry, cs.modify owner.id (fun e =>
        if owner.isMeta then { e with classSide := e.classSide.fileAll [] }
        else { e with instanceSide := e.instanceSide.fileAll [] }) = cs := by
      intro cs
      apply Array.ext
      · exact Array.size_modify
      · intro i _ _
        rw [Array.getElem_modify]
        split
        · split <;> rfl
        · rfl
    rw [hmodify]
  unfold filed
  rw [hsame]

namespace Image

variable {m : Memory}

/-- A field that holds a method of its name: this is placed and filed, and then the others are
loaded. -/
theorem loadMethods_of_toNode {className selector : String} {json : Json} {method : Method}
    (hread : Node.ofJson? json = .ok method.toNode) (hs : method.selector = .str selector)
    (rest : List (String × Json)) :
    loadMethods className method.owner ((selector, json) :: rest)
      = (Change.place method.toNode >>= fun node =>
          Change.compile method.owner node (.str "image") >>= fun _ =>
            loadMethods className method.owner rest) := by
  rw [loadMethods, hread]
  simp only [Method.ofNode?, Method.toNode, hs, beq_self_eq_true, if_true]

/-- Loading one method and then the others. -/
theorem loadMethods_cons {className selector : String} {owner : Behavior} {json : Json}
    {method : Method} {rest : List (String × Json)}
    (hread : Node.ofJson? json = .ok method.toNode) (howner : method.owner = owner)
    (hs : method.selector = .str selector) :
    ∃ placed n, placed.unplaced = method.unplaced ∧ placed.owner = owner ∧
      placed.selector = .str selector ∧
      loadMethods className owner ((selector, json) :: rest) m
        = loadMethods className owner rest (m.filed owner [placed] n) := by
  subst howner
  obtain ⟨placed, n, hplaced, howner, hselector, hplace⟩ := Change.place_toNode (m := m) method
  rw [hs] at hselector
  refine ⟨placed, n, hplaced, howner, hselector, ?_⟩
  rw [loadMethods_of_toNode hread hs, bind_of_ok hplace, ← howner,
    bind_of_ok (Change.compile_image hselector)]
  rfl

/-- A method that is loaded without a fault is one of its field's name. -/
theorem of_loadMethods_cons {className selector : String} {owner : Behavior} {json : Json}
    {rest : List (String × Json)} {m' : Memory}
    (h : loadMethods className owner ((selector, json) :: rest) m = .ok () m') :
    ∃ method : Method, Node.ofJson? json = .ok method.toNode ∧ method.owner = owner ∧
      method.selector = .str selector := by
  rw [loadMethods] at h
  cases hread : Node.ofJson? json with
  | error e =>
      rw [hread] at h
      cases h
  | ok node =>
      rw [hread] at h
      cases node with
      | method selector' params temps statements primitive =>
          cases selector' with
          | str s =>
              by_cases hs : s = selector
              · exact ⟨⟨.str s, params, temps, statements, primitive, owner⟩, rfl, rfl,
                  congrArg _ hs⟩
              · simp [Method.ofNode?, hs] at h
                cases h
          | _ => cases h
      | _ => cases h

/-- Whatever is loaded for one side without a fault, methods of that side are filed. -/
theorem of_loadMethods {className : String} {owner : Behavior} {fields : List (String × Json)}
    {m' : Memory} (h : loadMethods className owner fields m = .ok () m') :
    ∃ ms n, (∀ method ∈ ms, method.owner = owner ∧ ∃ s, method.selector = .str s) ∧
      m' = m.filed owner ms n := by
  induction fields generalizing m with
  | nil =>
      cases h
      exact ⟨[], m'.heap.texts, fun _ h => absurd h List.not_mem_nil, (m'.filed_nil owner).symm⟩
  | cons field rest ih =>
      obtain ⟨selector, json⟩ := field
      obtain ⟨method, hread, howner, hs⟩ := of_loadMethods_cons h
      obtain ⟨placed, n, -, howner', hs', hload⟩ := loadMethods_cons hread howner hs
      rw [hload] at h
      obtain ⟨ms, n', hms, rfl⟩ := ih h
      refine ⟨placed :: ms, n', ?_, Memory.filed_filed ..⟩
      intro method' hmem
      rcases List.mem_cons.mp hmem with rfl | hmem
      · exact ⟨howner', selector, hs'⟩
      · exact hms method' hmem

/-- What is written for methods is loaded again, as the same methods up to their sites. -/
theorem loadMethods_of_fields (className : String) {owner : Behavior} (ms : List Method)
    (hms : ∀ method ∈ ms, method.owner = owner ∧ ∃ s, method.selector = .str s) :
    ∃ placed n, placed.map Method.unplaced = ms.map Method.unplaced ∧
      loadMethods className owner
        (ms.map fun method => (fieldName method.selector, method.toNode.toJson)) m
          = .ok () (m.filed owner placed n) := by
  induction ms generalizing m with
  | nil => exact ⟨[], m.heap.texts, rfl, congrArg _ (m.filed_nil owner).symm⟩
  | cons method rest ih =>
      obtain ⟨howner, s, hs⟩ := hms method List.mem_cons_self
      have hread : Node.ofJson? method.toNode.toJson = .ok method.unplaced.toNode :=
        Node.ofJson?_toJson method.toNode
      obtain ⟨placed, n, hplaced, -, -, hload⟩ :=
        @loadMethods_cons m className s owner _ _ (rest.map _) hread howner hs
      obtain ⟨rest', n', hrest, hloadRest⟩ := ih (m := m.filed owner [placed] n) fun m' hm' =>
        hms m' (List.mem_cons_of_mem _ hm')
      refine ⟨placed :: rest', n', ?_, ?_⟩
      · rw [List.map_cons, List.map_cons, hplaced, hrest, Method.unplaced_unplaced]
      · rw [List.map_cons, hs]
        refine hload.trans ?_
        rw [hloadRest, Memory.filed_filed]
        rfl

end Image

end Smalltalk
