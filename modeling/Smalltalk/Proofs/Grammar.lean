import Smalltalk.Proofs.Primitive
import Smalltalk.Proofs.Unplaced

/-!
# `Smalltalk.Proofs.Grammar`: which JSON values are trees

`Json.Spells json node` is the grammar of trees in images, with a production for each
tag: it says that `json` is a tree and which one. Lists of trees are real lists, or an
empty text or object (`Json.SpellsList`); lists of names may be left out, may be
anything that counts as nothing, and are taken apart otherwise (`Json.Names`); and a
value that is written out may be a list of such values, but not hold an object
(`Json.SpellsLiteral`).

The reader folds a value into a `Form`, which is faithful to the grammar at every part
(`Form.ofJson_faithful`, by induction on the value). So `Node.ofJson?` reads just what
the grammar has, and whatever else it gets is a malformed image.
-/

set_option autoImplicit false

namespace Smalltalk

/-! ### The grammar -/

namespace Json

/-- The names that a field stands for. -/
inductive Names : Option Json → List Json → Prop where
  | absent : Names none []
  | nothing {value : Json} (falsy : value.truthy = false) : Names (some value) []
  | list (names : List Json) : Names (some (.arr names)) names
  | text (s : String) : Names (some (.str s)) (s.toList.map fun c => .str (String.singleton c))
  | object (fields : List (String × Json)) :
    Names (some (.obj fields)) (fields.map fun f => .str f.1)

mutual
/-- A value that a tree can hold outright, and the tree. -/
inductive SpellsLiteral : Json → Node → Prop where
  | null : SpellsLiteral .null (.literal .nil)
  | bool (b : Bool) : SpellsLiteral (.bool b) (.literal (.bool b))
  | int (i : Int) : SpellsLiteral (.int i) (.literal (.int i))
  | float (x : Float) : SpellsLiteral (.float x) (.literal (.float x))
  | text (s : String) : SpellsLiteral (.str s) (.literal (.text s 0))
  | list {items : List Json} {nodes : List Node} (each : SpellsLiterals items nodes) :
    SpellsLiteral (.arr items) (.literalArray nodes)

/-- `SpellsLiteral`, item by item. -/
inductive SpellsLiterals : List Json → List Node → Prop where
  | nil : SpellsLiterals [] []
  | cons {item : Json} {items : List Json} {node : Node} {nodes : List Node}
      (first : SpellsLiteral item node) (rest : SpellsLiterals items nodes) :
    SpellsLiterals (item :: items) (node :: nodes)
end

/-- Reading a field that may be left out and is kept as it is. -/
def field (fields : List (String × Json)) (name : String) : Json :=
  (fields.lookup name).getD .null

mutual
/-- A value that is a tree, and the tree. -/
inductive Spells : Json → Node → Prop where
  | self {fields : List (String × Json)} (tag : fields.lookup "node" = some (.str "self")) :
    Spells (.obj fields) .self
  | super {fields : List (String × Json)} (tag : fields.lookup "node" = some (.str "super")) :
    Spells (.obj fields) .super
  | reference {fields : List (String × Json)} {name : Json} {kind : VariableKind}
      (tag : fields.lookup "node" = some (.str "reference"))
      (named : fields.lookup "name" = some name)
      (kinded : fields.lookup "kind" = some (.str kind.word)) :
    Spells (.obj fields) (.reference name kind (field fields "index"))
  | literal {fields : List (String × Json)} {value : Json} {node : Node}
      (tag : fields.lookup "node" = some (.str "literal"))
      (valued : fields.lookup "value" = some value) (spelled : SpellsLiteral value node) :
    Spells (.obj fields) node
  | symbol {fields : List (String × Json)} {s : String}
      (tag : fields.lookup "node" = some (.str "symbol"))
      (valued : fields.lookup "value" = some (.str s)) : Spells (.obj fields) (.symbol s)
  | literalArray {fields : List (String × Json)} {list : Json} {elements : List Node}
      (tag : fields.lookup "node" = some (.str "literalArray"))
      (listed : fields.lookup "elements" = some list) (spelled : SpellsList list elements) :
    Spells (.obj fields) (.literalArray elements)
  | sequence {fields : List (String × Json)} {list : Json} {temps : List Json}
      {statements : List Node} (tag : fields.lookup "node" = some (.str "sequence"))
      (listed : fields.lookup "statements" = some list) (spelled : SpellsList list statements)
      (tempNames : Names (fields.lookup "temps") temps) :
    Spells (.obj fields) (.sequence temps statements)
  | block {fields : List (String × Json)} {list : Json} {params temps : List Json}
      {statements : List Node} (tag : fields.lookup "node" = some (.str "block"))
      (listed : fields.lookup "statements" = some list) (spelled : SpellsList list statements)
      (paramNames : Names (fields.lookup "params") params)
      (tempNames : Names (fields.lookup "temps") temps) :
    Spells (.obj fields) (.block params temps statements)
  | send {fields : List (String × Json)} {value selector list : Json} {receiver : Node}
      {args : List Node} (tag : fields.lookup "node" = some (.str "send"))
      (received : fields.lookup "receiver" = some value) (spelled : Spells value receiver)
      (selected : fields.lookup "selector" = some selector)
      (listed : fields.lookup "args" = some list) (arguments : SpellsList list args) :
    Spells (.obj fields) (.send receiver selector args)
  | sendNothing {fields : List (String × Json)} {value selector : Json} {receiver : Node}
      (tag : fields.lookup "node" = some (.str "send"))
      (received : fields.lookup "receiver" = some value) (spelled : Spells value receiver)
      (selected : fields.lookup "selector" = some selector)
      (absent : fields.lookup "args" = none) : Spells (.obj fields) (.send receiver selector [])
  | assign {fields : List (String × Json)} {name value : Json} {kind : VariableKind}
      {node : Node} (tag : fields.lookup "node" = some (.str "assign"))
      (named : fields.lookup "name" = some name)
      (kinded : fields.lookup "kind" = some (.str kind.word))
      (valued : fields.lookup "value" = some value) (spelled : Spells value node) :
    Spells (.obj fields) (.assign name kind (field fields "index") node)
  | answer {fields : List (String × Json)} {value : Json} {node : Node}
      (tag : fields.lookup "node" = some (.str "answer"))
      (valued : fields.lookup "value" = some value) (spelled : Spells value node) :
    Spells (.obj fields) (.answer node)
  | method {fields : List (String × Json)} {selector list : Json} {params temps : List Json}
      {statements : List Node} (tag : fields.lookup "node" = some (.str "method"))
      (selected : fields.lookup "selector" = some selector)
      (listed : fields.lookup "statements" = some list) (spelled : SpellsList list statements)
      (paramNames : Names (fields.lookup "args") params)
      (tempNames : Names (fields.lookup "temps") temps) :
    Spells (.obj fields)
      (.method selector params temps statements (field fields "primitive"))

/-- A value that is a list of trees, and the trees. -/
inductive SpellsList : Json → List Node → Prop where
  | list {items : List Json} {nodes : List Node} (each : SpellsEach items nodes) :
    SpellsList (.arr items) nodes
  | noText : SpellsList (.str "") []
  | noFields : SpellsList (.obj []) []

/-- `Spells`, item by item. -/
inductive SpellsEach : List Json → List Node → Prop where
  | nil : SpellsEach [] []
  | cons {item : Json} {items : List Json} {node : Node} {nodes : List Node}
      (first : Spells item node) (rest : SpellsEach items nodes) :
    SpellsEach (item :: items) (node :: nodes)
end

end Json

/-! ### Parts of the reader -/

open Json
open Primitive (bind_eq_ok map_eq_ok)

theorem VariableKind.ofJson?_eq_some {json : Json} {kind : VariableKind} :
    VariableKind.ofJson? json = some kind ↔ json = .str kind.word := by
  constructor
  · intro h
    unfold VariableKind.ofJson? at h
    split at h <;> cases h <;> rfl
  · rintro rfl
    exact VariableKind.ofJson?_word kind

namespace Form

variable {fields : List (String × Json)} {tag name : String}

theorem lookup_ofNamed (fields : List (String × Json)) (name : String) :
    (ofNamed fields).lookup name = (fields.lookup name).map ofJson := by
  induction fields with
  | nil => rfl
  | cons field rest ih =>
      obtain ⟨n, v⟩ := field
      rw [lookup_ofNamed_cons, List.lookup_cons, ih]
      by_cases h : name = n
      · rw [if_pos h, beq_iff_eq.mpr h]
        rfl
      · rw [if_neg h, beq_eq_false_iff_ne.mpr h]

theorem need_eq_ok {x : Form} : (ofNamed fields).need tag name = .ok x ↔
    ∃ value, fields.lookup name = some value ∧ ofJson value = x := by
  unfold Fields.need
  rw [lookup_ofNamed]
  cases fields.lookup name <;> simp

theorem orNull_eq (fields : List (String × Json)) (name : String) :
    (ofNamed fields).orNull name = field fields name := by
  unfold Fields.orNull field
  rw [lookup_ofNamed]
  cases fields.lookup name <;> simp

theorem kind_eq_ok {x : Form} {kind : VariableKind} :
    x.kind tag = .ok kind ↔ x.json = .str kind.word := by
  rw [← VariableKind.ofJson?_eq_some]
  unfold Form.kind
  cases VariableKind.ofJson? x.json <;> simp

/-- Whatever counts as nothing stands for no names, and the rest is taken apart. -/
theorem listed_eq_ok {value : Json} {names : List Json} :
    listed tag value = .ok names ↔ Names (some value) names := by
  unfold listed
  constructor
  · intro h
    split at h
    · split at h
      · rename_i parts hparts
        cases h
        cases value <;> cases hparts
        · exact .text _
        · exact .list _
        · exact .object _
      · cases h
    · rename_i hfalsy
      cases h
      exact .nothing (Bool.not_eq_true _ ▸ hfalsy)
  · intro h
    cases h with
    | nothing falsy => rw [falsy]; rfl
    | list => exact listed_arr tag _
    | text s =>
        -- the empty text counts as nothing, and has no parts either
        by_cases hs : s = ""
        · rw [hs]
          rfl
        · have htruthy : (Json.str s).truthy = true := bne_iff_ne.mpr hs
          rw [htruthy]
          rfl
    | object fields => cases fields <;> rfl

theorem names_eq_ok {names : List Json} :
    (ofNamed fields).names tag name = .ok names ↔ Names (fields.lookup name) names := by
  rw [names_eq_listed, orNull_eq]
  unfold field
  cases fields.lookup name with
  | some value => exact listed_eq_ok
  | none =>
      constructor
      · intro h
        cases h
        exact .absent
      · intro h
        cases h
        rfl

mutual
/-- A value is read as the literal that it spells. -/
theorem ofLiteral?_eq_ok : (value : Json) → (node : Node) →
    (Node.ofLiteral? value = .ok node ↔ value.SpellsLiteral node)
  | .null, _ => ⟨fun h => by cases h; exact .null, fun h => by cases h; rfl⟩
  | .bool b, _ => ⟨fun h => by cases h; exact .bool b, fun h => by cases h; rfl⟩
  | .int i, _ => ⟨fun h => by cases h; exact .int i, fun h => by cases h; rfl⟩
  | .float x, _ => ⟨fun h => by cases h; exact .float x, fun h => by cases h; rfl⟩
  | .str s, _ => ⟨fun h => by cases h; exact .text s, fun h => by cases h; rfl⟩
  | .obj fields, _ => ⟨fun h => (nomatch h), fun h => (nomatch h)⟩
  | .arr items, node => by
      rw [Node.ofLiteral?, map_eq_ok]
      constructor
      · rintro ⟨nodes, hnodes, rfl⟩
        exact .list ((ofLiterals?_eq_ok items nodes).mp hnodes)
      · rintro (_ | _ | _ | _ | _ | each)
        exact ⟨_, (ofLiterals?_eq_ok items _).mpr each, rfl⟩

/-- The same of every item of a list. -/
theorem ofLiterals?_eq_ok : (items : List Json) → (nodes : List Node) →
    (Node.ofLiterals? items = .ok nodes ↔ SpellsLiterals items nodes)
  | [], _ => ⟨fun h => by cases h; exact .nil, fun h => by cases h; rfl⟩
  | item :: rest, nodes => by
      simp only [Node.ofLiterals?, bind_eq_ok, pure, Except.pure, Except.ok.injEq]
      constructor
      · rintro ⟨first, hfirst, others, hothers, rfl⟩
        exact .cons ((ofLiteral?_eq_ok item first).mp hfirst)
          ((ofLiterals?_eq_ok rest others).mp hothers)
      · rintro (_ | ⟨first, others⟩)
        exact ⟨_, (ofLiteral?_eq_ok item _).mpr first, _, (ofLiterals?_eq_ok rest _).mpr others,
          rfl⟩
end

/-- A form says of its value just what the grammar does. -/
structure Faithful (x : Form) : Prop where
  tree : ∀ node, x.tree = .ok node ↔ x.json.Spells node
  trees : ∀ tag nodes, x.trees tag = .ok nodes ↔ x.json.SpellsList nodes

/-- What is read from the fields of an object is in the grammar, when their values are. -/
theorem spells_of_tree {node : Node}
    (hfields : ∀ name value, fields.lookup name = some value → (ofJson value).Faithful)
    (htag : fields.lookup "node" = some (.str tag)) (h : (ofNamed fields).tree tag = .ok node) :
    (Json.obj fields).Spells node := by
  have htree : ∀ {name value n}, fields.lookup name = some value →
      (ofJson value).tree = .ok n → value.Spells n := fun hvalue hn => by
    simpa using ((hfields _ _ hvalue).tree _).mp hn
  have htrees : ∀ {name value tag ns}, fields.lookup name = some value →
      (ofJson value).trees tag = .ok ns → value.SpellsList ns := fun hvalue hns => by
    simpa using ((hfields _ _ hvalue).trees _ _).mp hns
  -- one case for each tag that a tree can have
  unfold Fields.tree at h
  split at h <;>
    simp only [bind_eq_ok, need_eq_ok, kind_eq_ok, names_eq_ok, orNull_eq, pure, Except.pure,
      Except.ok.injEq, reduceCtorEq] at h
  · exact h ▸ .self htag
  · exact h ▸ .super htag
  · obtain ⟨_, ⟨name, hname, rfl⟩, _, ⟨value, hvalue, rfl⟩, kind, hkind, rfl⟩ := h
    rw [json_ofJson] at hkind ⊢
    exact .reference htag hname (hkind ▸ hvalue)
  · obtain ⟨_, ⟨value, hvalue, rfl⟩, h⟩ := h
    rw [json_ofJson] at h
    exact .literal htag hvalue ((ofLiteral?_eq_ok value node).mp h)
  · obtain ⟨_, ⟨value, hvalue, rfl⟩, h⟩ := h
    rw [json_ofJson] at h
    split at h <;> cases h
    exact .symbol htag hvalue
  · obtain ⟨_, ⟨list, hlist, rfl⟩, elements, helements, rfl⟩ := h
    exact .literalArray htag hlist (htrees hlist helements)
  · obtain ⟨_, ⟨list, hlist, rfl⟩, statements, hstatements, temps, htemps, rfl⟩ := h
    exact .sequence htag hlist (htrees hlist hstatements) htemps
  · obtain ⟨_, ⟨list, hlist, rfl⟩, statements, hstatements, params, hparams, temps, htemps, rfl⟩
      := h
    exact .block htag hlist (htrees hlist hstatements) hparams htemps
  · obtain ⟨_, ⟨value, hvalue, rfl⟩, receiver, hreceiver, _, ⟨selector, hselector, rfl⟩, h⟩ := h
    rw [json_ofJson, lookup_ofNamed] at h
    cases hargs : fields.lookup "args" with
    | none =>
        rw [hargs] at h
        cases h
        exact .sendNothing htag hvalue (htree hvalue hreceiver) hselector hargs
    | some list =>
        rw [hargs] at h
        obtain ⟨args, hlist, hsend⟩ := bind_eq_ok.mp h
        cases hsend
        exact .send htag hvalue (htree hvalue hreceiver) hselector hargs (htrees hargs hlist)
  · obtain ⟨_, ⟨name, hname, rfl⟩, _, ⟨kinded, hkinded, rfl⟩, _, ⟨value, hvalue, rfl⟩, part, hpart,
      kind, hkind, rfl⟩ := h
    rw [json_ofJson] at hkind ⊢
    exact .assign htag hname (hkind ▸ hkinded) hvalue (htree hvalue hpart)
  · obtain ⟨_, ⟨value, hvalue, rfl⟩, part, hpart, rfl⟩ := h
    exact .answer htag hvalue (htree hvalue hpart)
  · obtain ⟨_, ⟨selector, hselector, rfl⟩, _, ⟨list, hlist, rfl⟩, statements, hstatements, params,
      hparams, temps, htemps, rfl⟩ := h
    rw [json_ofJson]
    exact .method htag hselector hlist (htrees hlist hstatements) hparams htemps

/-- What the grammar has of an object is read from its fields, when their values are. -/
theorem tree_of_spells {node : Node}
    (hfields : ∀ name value, fields.lookup name = some value → (ofJson value).Faithful)
    (h : (Json.obj fields).Spells node) : ofFields (.obj fields) (ofNamed fields) = .ok node := by
  have htree : ∀ {name value n}, fields.lookup name = some value → value.Spells n →
      (ofJson value).tree = .ok n := fun hvalue hn =>
    ((hfields _ _ hvalue).tree _).mpr (by simpa using hn)
  have htrees : ∀ {name value tag ns}, fields.lookup name = some value → value.SpellsList ns →
      (ofJson value).trees tag = .ok ns := fun hvalue hns =>
    ((hfields _ _ hvalue).trees _ _).mpr (by simpa using hns)
  have htag : ∀ {tag}, fields.lookup "node" = some (.str tag) →
      ofFields (.obj fields) (ofNamed fields) = (ofNamed fields).tree tag := fun htag => by
    unfold ofFields
    rw [lookup_ofNamed, htag]
    rfl
  have hneed : ∀ {tag name value}, fields.lookup name = some value →
      (ofNamed fields).need tag name = .ok (ofJson value) := fun hvalue =>
    need_eq_ok.mpr ⟨_, hvalue, rfl⟩
  cases h with
  | self tag => exact htag tag
  | super tag => exact htag tag
  | reference tag named kinded =>
      rw [htag tag]
      simp [Fields.tree, hneed named, hneed kinded, kind, orNull_eq, bind, Except.bind, pure,
        Except.pure]
  | literal tag valued spelled =>
      rw [htag tag]
      simp [Fields.tree, hneed valued, (ofLiteral?_eq_ok _ _).mpr spelled, bind, Except.bind]
  | symbol tag valued =>
      rw [htag tag]
      simp [Fields.tree, hneed valued, bind, Except.bind, pure, Except.pure]
  | literalArray tag listed spelled =>
      rw [htag tag]
      simp [Fields.tree, hneed listed, htrees listed spelled, bind, Except.bind, pure, Except.pure]
  | sequence tag listed spelled tempNames =>
      rw [htag tag]
      simp [Fields.tree, hneed listed, htrees listed spelled, names_eq_ok.mpr tempNames, bind,
        Except.bind, pure, Except.pure]
  | block tag listed spelled paramNames tempNames =>
      rw [htag tag]
      simp [Fields.tree, hneed listed, htrees listed spelled, names_eq_ok.mpr paramNames,
        names_eq_ok.mpr tempNames, bind, Except.bind, pure, Except.pure]
  | send tag received spelled selected listed arguments =>
      rw [htag tag]
      simp [Fields.tree, hneed received, htree received spelled, hneed selected, lookup_ofNamed,
        listed, htrees listed arguments, bind, Except.bind, pure, Except.pure]
  | sendNothing tag received spelled selected absent =>
      rw [htag tag]
      simp [Fields.tree, hneed received, htree received spelled, hneed selected, lookup_ofNamed,
        absent, bind, Except.bind, pure, Except.pure]
  | assign tag named kinded valued spelled =>
      rw [htag tag]
      simp [Fields.tree, hneed named, hneed kinded, hneed valued, htree valued spelled, kind,
        orNull_eq, bind, Except.bind, pure, Except.pure]
  | answer tag valued spelled =>
      rw [htag tag]
      simp [Fields.tree, hneed valued, htree valued spelled, bind, Except.bind, pure, Except.pure]
  | method tag selected listed spelled paramNames tempNames =>
      rw [htag tag]
      simp [Fields.tree, hneed selected, hneed listed, htrees listed spelled,
        names_eq_ok.mpr paramNames, names_eq_ok.mpr tempNames, orNull_eq, bind, Except.bind, pure,
        Except.pure]

theorem noTrees_eq_ok {parts : List Json} {nodes : List Node} :
    noTrees parts = .ok nodes ↔ parts = [] ∧ nodes = [] := by
  cases parts <;> simp [noTrees, eq_comm]

mutual
/-- Whatever a value holds, its form is faithful. -/
theorem ofJson_faithful : (value : Json) → (ofJson value).Faithful
  | .null | .bool _ | .int _ | .float _ =>
      ⟨fun _ => ⟨fun h => (nomatch h), fun h => (nomatch h)⟩,
        fun _ _ => ⟨fun h => (nomatch h), fun h => (nomatch h)⟩⟩
  | .str s => by
      refine ⟨fun _ => ⟨fun h => (nomatch h), fun h => (nomatch h)⟩, fun tag nodes => ?_⟩
      -- characters are no trees, so there must be none
      rw [ofJson, noTrees_eq_ok, List.map_eq_nil_iff, String.toList_eq_nil_iff]
      constructor
      · rintro ⟨rfl, rfl⟩
        exact .noText
      · rintro ⟨⟩
        exact ⟨rfl, rfl⟩
  | .arr items => by
      refine ⟨fun _ => ⟨fun h => (nomatch h), fun h => (nomatch h)⟩, fun tag nodes => ?_⟩
      rw [trees_ofJson_arr, all_eq_ok items nodes]
      constructor
      · exact .list
      · rintro ⟨⟩
        assumption
  | .obj fields => by
      have hfields := ofNamed_faithful fields
      refine ⟨fun node => ⟨fun h => ?_, fun h => tree_of_spells hfields h⟩, fun tag nodes => ?_⟩
      · rw [ofJson, ofFields, lookup_ofNamed] at h
        cases htag : fields.lookup "node" with
        | none =>
            rw [htag] at h
            cases h
        | some tag =>
            rw [htag, Option.map_some] at h
            simp only [json_ofJson] at h
            split at h
            · exact spells_of_tree hfields htag h
            · cases h
      · -- neither are names
        rw [ofJson, noTrees_eq_ok, List.map_eq_nil_iff]
        constructor
        · rintro ⟨rfl, rfl⟩
          exact .noFields
        · rintro ⟨⟩
          exact ⟨rfl, rfl⟩

/-- The same of every item of a list. -/
theorem all_eq_ok : (items : List Json) → (nodes : List Node) →
    (all (ofItems items) = .ok nodes ↔ SpellsEach items nodes)
  | [], _ => ⟨fun h => by cases h; exact .nil, fun h => by cases h; rfl⟩
  | item :: rest, nodes => by
      have hitem := (ofJson_faithful item).tree
      rw [json_ofJson] at hitem
      simp only [ofItems, all, bind_eq_ok, pure, Except.pure, Except.ok.injEq]
      constructor
      · rintro ⟨first, hfirst, others, hothers, rfl⟩
        exact .cons ((hitem first).mp hfirst) ((all_eq_ok rest others).mp hothers)
      · rintro (_ | ⟨first, others⟩)
        exact ⟨_, (hitem _).mpr first, _, (all_eq_ok rest _).mpr others, rfl⟩

/-- The same of every field of an object. -/
theorem ofNamed_faithful : (fields : List (String × Json)) → ∀ name value,
    fields.lookup name = some value → (ofJson value).Faithful
  | [], _, _, h => nomatch h
  | (n, v) :: rest, name, value, h => by
      rw [List.lookup_cons] at h
      split at h
      · cases h
        exact ofJson_faithful v
      · exact ofNamed_faithful rest name value h
end

end Form

theorem Node.ofJson?_eq_ok {value : Json} {node : Node} :
    ofJson? value = .ok node ↔ value.Spells node := by
  have hfaithful := (Form.ofJson_faithful value).tree node
  rw [Form.json_ofJson] at hfaithful
  exact hfaithful

end Smalltalk
