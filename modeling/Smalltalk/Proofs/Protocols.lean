import Smalltalk.Proofs.Lexical
import Smalltalk.Proofs.Loading
import Smalltalk.Proofs.Reread

/-!
# `Smalltalk.Proofs.Protocols`: what the protocols of a class list

A method is filed twice: among the methods of its class or metaclass, where it takes the
place of the method that its selector had, and under a protocol, where it takes the place
of the method that its selector had under the same protocol. Nothing is ever taken out.
So a selector that is compiled again under another protocol stays listed under the first
one, with the method that has been replaced.

`Memory.Files` is one step of a system as the tables of its methods see it: a method is
compiled, or no table reads otherwise afterwards. `Memory.History` is a run, with the
methods that were compiled on the way, and `Memory.Records` says that tables hold what
their history says, by selector the latest one of all and by protocol the latest one there.
A step preserves it (`Memory.Files.records`). Whatever a system does goes on with its
history (`Memory.LeadsTo.filesOnly`, `Memory.History.extend`), and
`protocols_list_what_was_filed` reads from it what protocols list.
-/

set_option autoImplicit false

namespace Smalltalk

open Relation (ReflTransGen)

/-! ### Reading a table -/

namespace MethodTable

/-- The method that a protocol lists for a selector. -/
def listed? (t : MethodTable) (protocol key : Key) : Option Method :=
  (t.protocols.find? protocol).bind fun listed => listed.find? key

/-- Two tables have the same methods, and the same ones under every protocol. -/
structure Alike (t t' : MethodTable) : Prop where
  methods : ∀ key, t'.methods.find? key = t.methods.find? key
  listed : ∀ protocol key, t'.listed? protocol key = t.listed? protocol key

theorem Alike.refl (t : MethodTable) : t.Alike t := ⟨fun _ => rfl, fun _ _ => rfl⟩

/-- A protocol that is new lists nothing yet. -/
theorem alike_addProtocol (t : MethodTable) (protocol : Key) (name : Json) :
    t.Alike (t.addProtocol protocol name) := by
  unfold addProtocol
  split
  · exact .refl t
  · next hnew =>
      refine ⟨fun _ => rfl, fun other key => ?_⟩
      unfold listed?
      simp only [Dictionary.find?_put]
      split
      · next heq =>
          subst heq
          have hnone : t.protocols.find? other = none := by simpa [Dictionary.contains] using hnew
          rw [hnone]
          rfl
      · rfl

theorem contains_addProtocol (t : MethodTable) (protocol : Key) (name : Json) :
    (t.addProtocol protocol name).protocols.contains protocol = true := by
  unfold addProtocol
  split
  · assumption
  · simp [Dictionary.contains_put]

theorem find?_install (t : MethodTable) (protocol key : Key) (method : Method) (other : Key) :
    (t.install protocol key method).methods.find? other
      = if other = key then some method else t.methods.find? other :=
  Dictionary.find?_put ..

/-- A method is listed under one protocol only, which has to be known. -/
theorem listed?_install {t : MethodTable} {protocol : Key}
    (h : t.protocols.contains protocol = true) (key : Key) (method : Method) (other k : Key) :
    (t.install protocol key method).listed? other k
      = if other = protocol ∧ k = key then some method else t.listed? other k := by
  obtain ⟨listed, hlisted⟩ := Option.isSome_iff_exists.mp h
  unfold listed? install
  simp only [hlisted, Dictionary.find?_put]
  by_cases hother : other = protocol
  · subst hother
    simp [hlisted, Dictionary.find?_put]
  · simp [hother]

end MethodTable

/-! ### Filings -/

/-- A method that was compiled: where, under which protocol and which selector. -/
structure Filing where
  owner : Behavior
  protocol : Key
  selector : Key
  method : Method

namespace Filing

/-- The latest filing of a selector; of several the latest one is the first. -/
def latest? (filings : List Filing) (key : Key) : Option Filing :=
  filings.find? fun f => f.selector = key

/-- The latest filing of a selector under a protocol. -/
def latestUnder? (filings : List Filing) (protocol key : Key) : Option Filing :=
  filings.find? fun f => f.protocol = protocol ∧ f.selector = key

/-- The filings in one class or metaclass. -/
def inside (b : Behavior) (filings : List Filing) : List Filing :=
  filings.filter fun f => f.owner = b

variable {filings : List Filing} {protocol key : Key} {f : Filing}

theorem of_latestUnder? (h : latestUnder? filings protocol key = some f) :
    f ∈ filings ∧ f.protocol = protocol ∧ f.selector = key :=
  ⟨List.mem_of_find?_eq_some h, by simpa using List.find?_some h⟩

/-- What is the latest of all is the latest under its protocol. -/
theorem latestUnder?_of_latest? (h : latest? filings key = some f) :
    latestUnder? filings f.protocol key = some f := by
  induction filings with
  | nil => cases h
  | cons g rest ih =>
      unfold latest? latestUnder? at *
      rw [List.find?_cons] at h ⊢
      by_cases hkey : g.selector = key
      · simp only [hkey, decide_true] at h
        cases h
        simp [hkey]
      · simp only [hkey, decide_false] at h
        simp only [hkey, and_false, decide_false]
        exact ih h

theorem isSome_latest? (hf : f ∈ filings) : (latest? filings f.selector).isSome :=
  List.find?_isSome.mpr ⟨f, hf, by simp⟩

theorem isSome_latestUnder? (hf : f ∈ filings) :
    (latestUnder? filings f.protocol f.selector).isSome :=
  List.find?_isSome.mpr ⟨f, hf, by simp⟩

end Filing

/-- A table holds what was filed: under each selector the latest method, and under each
protocol the latest one there. -/
structure MethodTable.Holds (t : MethodTable) (filings : List Filing) : Prop where
  installed : ∀ key, t.methods.find? key = (Filing.latest? filings key).map (·.method)
  listed : ∀ protocol key,
    t.listed? protocol key = (Filing.latestUnder? filings protocol key).map (·.method)

namespace MethodTable

variable {t t' : MethodTable} {filings : List Filing}

theorem Alike.holds (h : t.Alike t') (hholds : t.Holds filings) : t'.Holds filings :=
  ⟨fun key => (h.methods key).trans (hholds.installed key),
    fun protocol key => (h.listed protocol key).trans (hholds.listed protocol key)⟩

/-- Filing a method under a protocol, known or not. -/
theorem Holds.install (h : t.Holds filings) (name : Json) (f : Filing) :
    ((t.addProtocol f.protocol name).install f.protocol f.selector f.method).Holds
      (f :: filings) := by
  have hadded := (t.alike_addProtocol f.protocol name).holds h
  refine ⟨fun key => ?_, fun protocol key => ?_⟩
  · rw [find?_install, hadded.installed]
    unfold Filing.latest?
    rw [List.find?_cons]
    by_cases hkey : f.selector = key
    · simp [hkey]
    · simp [hkey, Ne.symm hkey]
  · rw [listed?_install (t.contains_addProtocol f.protocol name), hadded.listed]
    unfold Filing.latestUnder?
    rw [List.find?_cons]
    by_cases hboth : f.protocol = protocol ∧ f.selector = key
    · simp [hboth]
    · have hboth' : ¬ (protocol = f.protocol ∧ key = f.selector) := fun h =>
        hboth ⟨h.1.symm, h.2.symm⟩
      rw [if_neg hboth', decide_eq_false hboth]

end MethodTable

/-! ### Histories -/

namespace Memory

/-- No table reads otherwise in another memory. -/
def Alike (m m' : Memory) : Prop :=
  ∀ b, (m.registry.table b).Alike (m'.registry.table b)

/-- One step of a system, with the method that it files. -/
inductive Files (m : Memory) : Option Filing → Memory → Prop where
  | compile {owner : Behavior} {node : Node} {protocol : Json} {method : Method} {m' : Memory}
      {protocolKey key : Key} (known : owner.id < m.registry.classes.size)
      (hprotocol : protocol.key? = some protocolKey)
      (hkey : method.selector.key? = some key)
      (hcompile : Change.compile owner node protocol m = .ok method m') :
    Files m (some ⟨owner, protocolKey, key, method⟩) m'
  | aside {m' : Memory} (alike : m.Alike m') : Files m none m'

/-- The methods that were filed from one memory to another, the latest first. -/
inductive History (m₀ : Memory) : List Filing → Memory → Prop where
  | start : History m₀ [] m₀
  | next {filings : List Filing} {m m' : Memory} {filed : Option Filing}
      (before : History m₀ filings m) (step : m.Files filed m') :
    History m₀ (filed.toList ++ filings) m'

/-- Every table holds what was filed in it. -/
def Records (m : Memory) (filings : List Filing) : Prop :=
  ∀ b, (m.registry.table b).Holds (Filing.inside b filings)

variable {m m' : Memory} {filings : List Filing}

theorem alike_of_registry (h : m'.registry = m.registry) : m.Alike m' :=
  fun _ => h ▸ .refl _

theorem alike_updateTable {owner : Behavior} {change : MethodTable → MethodTable}
    (hchange : ∀ t : MethodTable, t.Alike (change t)) :
    m.Alike { m with registry := m.registry.updateTable owner change } := by
  intro b
  show (m.registry.table b).Alike ((m.registry.updateTable owner change).table b)
  rw [Registry.table_updateTable]
  split
  · next h => exact h.1 ▸ hchange _
  · exact .refl _

/-- The tables of a memory after a method was installed. -/
theorem table_installed (m : Memory) (method : Method) (protocol : Json) (protocolKey key : Key)
    (b : Behavior) :
    (m.installed method protocol protocolKey key).registry.table b
      = if b = method.owner ∧ method.owner.id < m.registry.classes.size then
          ((m.registry.table b).addProtocol protocolKey protocol).install protocolKey key method
        else m.registry.table b := by
  unfold installed
  simp only [Registry.table_updateTable, Registry.size_updateTable]
  by_cases h : b = method.owner ∧ method.owner.id < m.registry.classes.size
  · obtain ⟨rfl, hlt⟩ := h
    simp [hlt]
  · simp only [if_neg h]

/-- What tables hold after a step. -/
theorem Files.records {filed : Option Filing} (step : m.Files filed m')
    (h : m.Records filings) : m'.Records (filed.toList ++ filings) := by
  cases step with
  | aside alike => exact fun b => (alike b).holds (h b)
  | @compile owner node protocol method _ protocolKey key known hprotocol hkey hcompile =>
      obtain ⟨hmethod, protocolKey', key', hprotocol', hkey', rfl⟩ :=
        Change.compile_eq_ok.mp hcompile
      cases hprotocol.symm.trans hprotocol'
      cases hkey.symm.trans hkey'
      obtain ⟨-, rfl⟩ := Change.toNode_of_ofNode? hmethod
      -- only the table of the owner changes, and only its filings have one more
      intro b
      rw [table_installed]
      show MethodTable.Holds _ (List.filter _ (_ :: filings))
      rw [List.filter_cons]
      by_cases hb : b = method.owner
      · subst hb
        rw [if_pos ⟨rfl, known⟩, if_pos (by simp)]
        exact (h method.owner).install protocol ⟨method.owner, protocolKey, key, method⟩
      · rw [if_neg fun hboth => hb hboth.1, if_neg (by simpa using Ne.symm hb)]
        exact h b

/-- What tables hold after a run. -/
theorem History.records {m₀ : Memory} (history : m₀.History filings m) (h : m₀.Records []) :
    m.Records filings := by
  induction history with
  | start => exact h
  | next _ step ih => exact step.records ih

theorem records_empty : ({} : Memory).Records [] := by
  rintro ⟨id, side⟩
  have htable : ({} : Memory).registry.table ⟨id, side⟩ = {} := by cases side <;> rfl
  rw [htable]
  exact ⟨fun _ => rfl, fun _ _ => rfl⟩

/-- A step that files nothing, or a filing of some sort. -/
def FilesOnly (P : Filing → Prop) (m m' : Memory) : Prop :=
  ∃ filed, m.Files filed m' ∧ ∀ f ∈ filed, P f

/-- A history goes on with what the steps file. -/
theorem History.extend {m₀ : Memory} {P : Filing → Prop} (history : m₀.History filings m)
    (steps : ReflTransGen (FilesOnly P) m m') :
    ∃ new, m₀.History (new ++ filings) m' ∧ ∀ f ∈ new, P f := by
  induction steps with
  | refl => exact ⟨[], history, fun _ h => absurd h List.not_mem_nil⟩
  | tail _ step ih =>
      obtain ⟨new, hnew, hP⟩ := ih
      obtain ⟨filed, hfiled, hP'⟩ := step
      refine ⟨filed.toList ++ new, ?_, fun f hf => ?_⟩
      · rw [List.append_assoc]
        exact .next hnew hfiled
      · rcases List.mem_append.mp hf with hf | hf
        · exact hP' f (Option.mem_toList.mp hf)
        · exact hP f hf

theorem Alike.filesOnly {P : Filing → Prop} (h : m.Alike m') : FilesOnly P m m' :=
  ⟨none, .aside h, fun _ h => nomatch h⟩

theorem filesOnly_of_registry {P : Filing → Prop} (h : m'.registry = m.registry) :
    FilesOnly P m m' :=
  (alike_of_registry h).filesOnly

/-- A reform that installs no method leaves every table alike: a new class has the table
that was read for it before, an empty one. -/
theorem Reform.alike (h : m.Reform (fun _ => False) m') : m.Alike m' := by
  cases h with
  | define name parent declared indexable =>
      intro b
      show (m.registry.table b).Alike ((m.registry.define name parent declared indexable).1.table b)
      rw [Registry.table_define]
      split
      · next hnew =>
          have hempty : m.registry.table b = {} := by
            unfold Registry.table
            rw [Registry.entry_of_le (Nat.le_of_eq hnew.symm)]
            cases b.isMeta <;> rfl
          exact hempty ▸ .refl _
      · exact .refl _
  | protocol owner key name => exact alike_updateTable fun t => t.alike_addProtocol key name
  | install method hmethod => exact hmethod.elim
  | texts n => exact alike_of_registry rfl
  | note line => exact alike_of_registry (registry_note m line)

end Memory

/-! ### Changes -/

namespace Change

variable {m m' : Memory} {P : Filing → Prop}

theorem Reforms.filesOnly {α : Type} {act : Change α} (h : Reforms (fun _ => False) act m) :
    Moves (Memory.FilesOnly P) act m :=
  ReflTransGen.mono (fun _ _ r => (Memory.Reform.alike r).filesOnly) _ _ h

theorem of_ofExcept_error {α : Type} {e : Except Fault α} {f : Fault}
    (h : Change.ofExcept e m = .error f m') : m' = m := by
  cases e with
  | ok a => cases h
  | error f' =>
      cases h
      rfl

/-- A method that is not installed leaves at most its protocol behind. -/
theorem alike_of_install_error {method : Method} {protocol : Json} {f : Fault}
    (h : install method protocol m = .error f m') : m.Alike m' := by
  unfold install at h
  rcases bind_error_iff.mp h with hname | ⟨protocolKey, m₁, hname, hrest⟩
  · exact Memory.alike_of_registry (of_ofExcept_error hname ▸ rfl)
  · obtain ⟨-, rfl⟩ := keyOf_eq_ok.mp hname
    rcases bind_error_iff.mp hrest with hadd | ⟨_, m₂, hadd, hrest⟩
    · cases hadd
    · cases hadd
      rcases bind_error_iff.mp hrest with hselector | ⟨key, m₃, _, hinstalled⟩
      · cases of_ofExcept_error hselector
        exact Memory.alike_updateTable fun t => t.alike_addProtocol protocolKey protocol
      · cases hinstalled

theorem alike_of_compile_error {owner : Behavior} {node : Node} {protocol : Json} {f : Fault}
    (h : compile owner node protocol m = .error f m') : m.Alike m' := by
  unfold compile at h
  cases hmethod : Method.ofNode? owner node with
  | none =>
      rw [hmethod] at h
      cases h
      exact Memory.alike_of_registry rfl
  | some method =>
      rw [hmethod] at h
      rcases bind_error_iff.mp h with hinstall | ⟨_, _, _, hpure⟩
      · exact alike_of_install_error hinstall
      · cases hpure

/-- What is compiled is filed in the class or metaclass, if there is such a one. -/
theorem compile_filesOnly {owner : Behavior} {node : Node} {protocol : Json}
    (hP : ∀ method protocolKey key, Method.ofNode? owner node = some method →
      protocol.key? = some protocolKey → P ⟨owner, protocolKey, key, method⟩) :
    Moves (Memory.FilesOnly P) (compile owner node protocol) m := by
  unfold Moves
  cases hcompile : compile owner node protocol m with
  | error f m' => exact .single (alike_of_compile_error hcompile).filesOnly
  | ok method m' =>
      obtain ⟨hmethod, protocolKey, key, hprotocol, hkey, rfl⟩ := compile_eq_ok.mp hcompile
      -- where there is no such class, there is no table that could change
      by_cases known : owner.id < m.registry.classes.size
      · refine .single ⟨_, .compile known hprotocol hkey hcompile, fun f hf => ?_⟩
        cases hf
        exact hP method protocolKey key hmethod hprotocol
      · refine .single (Memory.Alike.filesOnly fun b => ?_)
        obtain ⟨-, rfl⟩ := toNode_of_ofNode? hmethod
        show (m.registry.table b).Alike ((m.installed _ _ _ _).registry.table b)
        rw [Memory.table_installed, if_neg fun h => known h.2]
        exact .refl _

end Change

/-- A tree that was placed becomes this method in its owner. -/
def Node.Becomes (node : Node) (method : Method) : Prop :=
  ∃ next, Method.ofNode? method.owner (node.withSites next).1 = some method

/-- A method that was filed under a protocol, from one of some trees. -/
def Filing.FromTrees (protocol : Json) (nodes : List Node) (f : Filing) : Prop :=
  protocol.key? = some f.protocol ∧ f.method.owner = f.owner ∧
    ∃ node ∈ nodes, node.Becomes f.method

namespace Change

variable {m : Memory} {nodes : List Node}

/-- Placing and compiling one of some trees. -/
theorem compile_placed_filesOnly {node : Node} (hnode : node ∈ nodes) (owner : Behavior)
    (next : Nat) (protocol : Json) :
    Moves (Memory.FilesOnly (Filing.FromTrees protocol nodes))
      (compile owner (node.withSites next).1 protocol) m := by
  refine compile_filesOnly fun method protocolKey key hmethod hprotocol => ?_
  obtain ⟨-, rfl⟩ := toNode_of_ofNode? hmethod
  exact ⟨hprotocol, rfl, node, hnode, next, hmethod⟩

end Change

namespace Image

variable {m : Memory} {nodes : List Node}

/-- What loading files, from the trees of an image. -/
abbrev FilesFrom {α : Type} (nodes : List Node) (act : Change α) (m : Memory) : Prop :=
  Moves (Memory.FilesOnly (Filing.FromTrees (.str "image") nodes)) act m

theorem loadMethods_filesFrom (className : String) (owner : Behavior)
    {fields : List (String × Json)} (hfields : sideTrees (some (.obj fields)) ⊆ nodes) :
    FilesFrom nodes (loadMethods className owner fields) m := by
  induction fields generalizing m with
  | nil => exact .pure ()
  | cons field rest ih =>
      obtain ⟨selector, json⟩ := field
      unfold loadMethods
      simp only [sideTrees, List.filterMap_cons] at hfields ih
      cases hread : Node.ofJson? json with
      | error e => exact .throw _
      -- a field that cannot be read files nothing
      | ok node =>
          simp only [hread, Except.toOption, List.cons_subset] at hfields
          obtain ⟨hnode, hrest⟩ := hfields
          simp only
          split
          · exact .throw _
          · split
            · split
              · refine .bind (Change.Reforms.place node).filesOnly fun placed m₁ hplaced _ => ?_
                cases hplaced
                exact .bind (Change.compile_placed_filesOnly hnode owner _ _)
                  fun _ _ _ _ => ih hrest
              · exact .throw _
            · exact .throw _

theorem loadSide_filesFrom (className : String) (owner : Behavior) {methods : Option Json}
    (hmethods : sideTrees methods ⊆ nodes) :
    FilesFrom nodes (loadSide className owner methods) m := by
  unfold loadSide
  split
  · exact .pure ()
  · exact loadMethods_filesFrom className owner hmethods
  · exact .throw _

theorem loadDefinition_filesFrom {definition : Json}
    (hdefinition : definitionTrees definition ⊆ nodes) :
    FilesFrom nodes (loadDefinition definition) m := by
  unfold loadDefinition
  split
  · obtain ⟨hmethods, hclassMethods⟩ := List.append_subset.mp hdefinition
    split
    · refine .bind (Change.Reforms.classFor _ _).filesOnly ?_
      intro id m₁ _ _
      refine .bind (loadSide_filesFrom _ _ hmethods) ?_
      intro _ m₂ _ _
      exact .bind (loadSide_filesFrom _ _ hclassMethods) fun _ _ _ _ => .pure _
    · exact .throw _
  · exact .throw _

/-- Loading an image files methods from its trees. -/
theorem load_filesFrom (image : Json) : FilesFrom (trees image) (load image) m := by
  unfold load
  split
  · next definitions =>
      refine .mapM fun d hd _ _ => loadDefinition_filesFrom fun node hnode => ?_
      exact List.mem_flatMap.mpr ⟨d, hd, hnode⟩
  · exact .throw _

end Image

/-- The kernel is built by filing its methods. -/
theorem Kernel.memory_filesOnly :
    ReflTransGen (Memory.FilesOnly (Filing.FromTrees (.str "kernel") (methods.flatMap (·.2)))) {}
      memory := by
  have hbuild : Moves
      (Memory.FilesOnly (Filing.FromTrees (.str "kernel") (methods.flatMap (·.2)))) build {} := by
    unfold build
    refine .bind (.forIn ?_) ?_
    · intro c _ _ m _
      exact .bind (Change.Reforms.define _ _ _ _).filesOnly fun _ _ _ _ => .pure _
    · intro _ m₁ _ _
      refine .bind (.forIn ?_) ?_
      · rintro ⟨name, nodes⟩ hnodes _ m _
        refine .get (.bind (Change.Reforms.ofExcept _).filesOnly ?_)
        intro id m₂ _ _
        refine .bind (.forIn ?_) fun _ _ _ _ => .pure _
        intro node hnode _ m _
        refine .bind (Change.Reforms.place node).filesOnly ?_
        intro placed m₃ hplaced _
        cases hplaced
        exact .bind (Change.compile_placed_filesOnly
          (List.mem_flatMap.mpr ⟨_, hnodes, hnode⟩) _ _ _) fun _ _ _ _ => .pure _
      · exact fun _ _ _ _ => .single (Memory.filesOnly_of_registry rfl)
  unfold memory
  unfold Moves at hbuild
  change ReflTransGen _ {} (left (build.run {})) at hbuild
  generalize build.run {} = result at hbuild ⊢
  cases result <;> exact hbuild

/-- Nothing that is evaluated files a method. -/
theorem Memory.Effects.filesOnly {m m' : Memory} {P : Filing → Prop} (h : m.Effects m') :
    Memory.FilesOnly P m m' :=
  filesOnly_of_registry h.later.registry

/-- One case for each command. -/
theorem Command.filesOnly (m : Memory) (command : Command) :
    ReflTransGen (Memory.FilesOnly fun _ => True) m (command.run m) := by
  cases command with
  | define name superclass instanceVariables indexable =>
      exact (Change.Reforms.define name superclass instanceVariables indexable).filesOnly
  | compile owner code protocol => exact Change.compile_filesOnly fun _ _ _ _ _ => trivial
  | load image =>
      exact ReflTransGen.mono (fun _ _ ⟨filed, h, _⟩ => ⟨filed, h, fun _ _ => trivial⟩) _ _
        (Image.load_filesFrom image)
  | setGlobal name value =>
      exact .single (Memory.Effects.filesOnly (Eval.Does.assignGlobal name value))
  | place code => exact (Change.Reforms.place code).filesOnly
  | makeText s => exact .single (Memory.filesOnly_of_registry rfl)
  | makeArray elements => exact .single (Memory.filesOnly_of_registry rfl)
  | evaluate settings query =>
      exact .single (Memory.Effects.filesOnly (Eval.Does.query settings query))

/-- One case for each way to go on. -/
theorem Memory.LeadsTo.filesOnly {m m' : Memory} (h : m.LeadsTo m') :
    ReflTransGen (FilesOnly fun _ => True) m m' := by
  induction h with
  | refl => exact .refl
  | command _ command ih => exact ih.trans (command.filesOnly _)
  | evaluateIn _ settings code receiver slots active ih =>
      exact ih.tail
        (Effects.filesOnly (Eval.Does.evaluateIn settings code receiver slots active))
  | tryPrimitive _ settings number receiver args ih =>
      exact ih.tail (Effects.filesOnly (Eval.Does.tryPrimitive settings number receiver args))
  | frame _ x alone ih => exact ih.tail (filesOnly_of_registry rfl)
  | journal _ recording ih => exact ih.tail (filesOnly_of_registry rfl)
  | during _ hwithin hc ih => exact ih.tail (Effects.filesOnly (hc.effects hwithin).1)
  | after _ hwithin hc ih =>
      obtain ⟨heffects, hwithin'⟩ := hc.effects hwithin
      exact ih.tail (Effects.filesOnly (heffects.trans (Eval.Does.run _ _ _ _ hwithin')))

/-! ### What protocols list -/

/-- What the protocols of a table list, given what was filed in it. -/
structure MethodTable.Classifies (t : MethodTable) (filings : List Filing) : Prop where
  /-- A selector has the method that was filed under it last. -/
  installed : ∀ key, t.methods.find? key = (Filing.latest? filings key).map (·.method)
  /-- A protocol lists for a selector the method that was filed last under both. -/
  listed : ∀ protocol key,
    t.listed? protocol key = (Filing.latestUnder? filings protocol key).map (·.method)
  /-- The installed method is listed, under the protocol that it was filed under. -/
  current : ∀ key f, Filing.latest? filings key = some f →
    t.methods.find? key = some f.method ∧ t.listed? f.protocol key = some f.method
  /-- Every selector that is listed is installed. -/
  known : ∀ protocol key, (t.listed? protocol key).isSome → (t.methods.find? key).isSome
  /-- A selector is listed nowhere else when it was filed under one protocol only. -/
  once : ∀ key f, Filing.latest? filings key = some f →
    ((∀ protocol, (t.listed? protocol key).isSome → protocol = f.protocol) ↔
      ∀ g ∈ filings, g.selector = key → g.protocol = f.protocol)

theorem MethodTable.Holds.classifies {t : MethodTable} {filings : List Filing}
    (h : t.Holds filings) : t.Classifies filings where
  installed := h.installed
  listed := h.listed
  current key f hf := by
    rw [h.installed, h.listed, hf, Filing.latestUnder?_of_latest? hf]
    exact ⟨rfl, rfl⟩
  known protocol key hlisted := by
    rw [h.listed, Option.isSome_map] at hlisted
    obtain ⟨g, hg⟩ := Option.isSome_iff_exists.mp hlisted
    obtain ⟨hmem, -, rfl⟩ := Filing.of_latestUnder? hg
    rw [h.installed, Option.isSome_map]
    exact Filing.isSome_latest? hmem
  once key f hf := by
    constructor
    · -- every protocol that the selector was filed under lists it still
      rintro honly g hg rfl
      refine honly g.protocol ?_
      rw [h.listed, Option.isSome_map]
      exact Filing.isSome_latestUnder? hg
    · intro hsame protocol hlisted
      rw [h.listed, Option.isSome_map] at hlisted
      obtain ⟨g, hg⟩ := Option.isSome_iff_exists.mp hlisted
      obtain ⟨hmem, rfl, hkey⟩ := Filing.of_latestUnder? hg
      exact hsame g hmem hkey

/-- Take a system with any history. Every class and metaclass lists what was filed in it: an
installed method is listed under the protocol of its latest compilation, and no selector is
listed that is not installed. But a protocol goes on to list what it has listed. A selector is
listed under one protocol only exactly where it was never filed under another one.

Whatever the system comes to continues its history. Compiling a method adds this one. Loading
an image adds methods from its trees, under the protocol of images, also where it fails midway.
And the kernel has a history, all of it under its own protocol. -/
theorem protocols_list_what_was_filed {filings : List Filing} {m : Memory}
    (history : ({} : Memory).History filings m) :
    (∀ b, (m.registry.table b).Classifies (Filing.inside b filings)) ∧
    (∀ m', m.LeadsTo m' → ∃ new, ({} : Memory).History (new ++ filings) m') ∧
    (∀ owner node protocol method m', owner.id < m.registry.classes.size →
      Change.compile owner node protocol m = .ok method m' →
      ∃ protocolKey key, protocol.key? = some protocolKey ∧ method.selector.key? = some key ∧
        ({} : Memory).History (⟨owner, protocolKey, key, method⟩ :: filings) m') ∧
    (∀ image, ∃ new, ({} : Memory).History (new ++ filings) (left (Image.load image m)) ∧
      ∀ f ∈ new, f.FromTrees (.str "image") (Image.trees image)) ∧
    ∃ built, ({} : Memory).History built Kernel.memory ∧
      ∀ f ∈ built, f.FromTrees (.str "kernel") (Kernel.methods.flatMap (·.2)) := by
  refine ⟨fun b => (history.records Memory.records_empty b).classifies, fun m' h => ?_, ?_,
    fun image => history.extend (Image.load_filesFrom image), ?_⟩
  · obtain ⟨new, hnew, -⟩ := history.extend h.filesOnly
    exact ⟨new, hnew⟩
  · intro owner node protocol method m' known hcompile
    obtain ⟨-, protocolKey, key, hprotocol, hkey, -⟩ := Change.compile_eq_ok.mp hcompile
    exact ⟨protocolKey, key, hprotocol, hkey,
      history.next (.compile known hprotocol hkey hcompile)⟩
  · obtain ⟨built, hbuilt, hfrom⟩ := Memory.History.extend .start Kernel.memory_filesOnly
    exact ⟨_, hbuilt, fun f hf => hfrom f (by simpa using hf)⟩

/-- A method that is compiled again under another protocol. The first protocol still lists
the method that was replaced. -/
theorem replaced_method_stays_listed : ∃ (m : Memory) (b : Behavior) (old new : Method),
    Kernel.memory.LeadsTo m ∧ old.primitive ≠ new.primitive ∧
    (m.registry.table b).methods.find? (.text "size") = some new ∧
    (m.registry.table b).listed? (.text "counting") (.text "size") = some new ∧
    (m.registry.table b).listed? (.text "drafts") (.text "size") = some old := by
  let m₁ := Command.run Kernel.memory (.define (.str "Bag") (.str "Object") .null .null)
  let old : Method := ⟨.str "size", [], [], [], .null, ⟨15, false⟩⟩
  let new : Method := ⟨.str "size", [], [], [], .int 62, ⟨15, false⟩⟩
  let m₂ := Command.run m₁ (.compile ⟨15, false⟩ old.toNode (.str "drafts"))
  let m₃ := Command.run m₂ (.compile ⟨15, false⟩ new.toNode (.str "counting"))
  have hreached : Kernel.memory.LeadsTo m₃ := .command (.command (.command .refl _) _) _
  obtain ⟨-, -, -, -, kernel, hkernel, -⟩ := protocols_list_what_was_filed .start
  obtain ⟨-, hcontinues, -⟩ := protocols_list_what_was_filed hkernel
  obtain ⟨defined, h₁⟩ := hcontinues m₁ (.command .refl _)
  obtain ⟨-, -, hcompiles, -⟩ := protocols_list_what_was_filed h₁
  obtain ⟨_, _, hdrafts, hsize, h₂⟩ := hcompiles ⟨15, false⟩ old.toNode (.str "drafts") old m₂
    (by decide +kernel) rfl
  cases hdrafts
  cases hsize
  obtain ⟨-, -, hcompiles, -⟩ := protocols_list_what_was_filed h₂
  obtain ⟨_, _, hcounting, hsize, h₃⟩ := hcompiles ⟨15, false⟩ new.toNode (.str "counting") new
    m₃ (by decide +kernel) rfl
  cases hcounting
  cases hsize
  obtain ⟨hlists, -⟩ := protocols_list_what_was_filed h₃
  have h := hlists ⟨15, false⟩
  exact ⟨m₃, ⟨15, false⟩, old, new, hreached, nofun, h.installed _, h.listed _ _,
    h.listed _ _⟩

end Smalltalk
