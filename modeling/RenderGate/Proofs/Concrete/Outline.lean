import RenderGate.Concrete.Source
import RenderGate.Proofs.Related

/-!
# Outlines

The outline of a concrete tree is what is left of it without its extra nodes and its spans: the kind
of every node, whether it is named, its role, and the texts and string prefixes that are read at it.
Two trees with one outline, none of whose extra nodes has a role, look the same through every
accessor that lowering uses (`Alike`).
-/

namespace RenderGate.Concrete

namespace Tree

/-- The opening of a string, with its prefix and its quotes. -/
def opening? (t : Tree) : Option Tree := t.tokens.find? fun (c : Tree) => c.kind == "string_start"

def secondOfTwo? : List Tree → Option Tree
  | [_, c] => some c
  | _ => none

/-- The node that spells a parameter, below the stars if there are any. -/
def parameterName? (t : Tree) : Option Tree :=
  match t.kind with
  | "identifier" => some t
  | "list_splat_pattern" | "dictionary_splat_pattern" => t.named.head?
  | _ => none

def declaredName? (t : Tree) : Option Tree :=
  match t.kind with
  | "typed_parameter" => t.named.head?.bind parameterName?
  | "default_parameter" | "typed_default_parameter" => (t.field? "name").bind parameterName?
  | _ => parameterName? t

def declaredNames (t : Tree) : List Tree :=
  ((t.field? "parameters").toList.flatMap named).filterMap declaredName?

def boundName? (t : Tree) : Option Tree :=
  (secondOfTwo? t.named).bind fun target =>
    if target.kind = "as_pattern_target" then target.named.head? else some target

def caughtName? : List Tree → Option Tree
  | [c] => if c.kind = "as_pattern" then boundName? c else none
  | [_, bound] => some bound
  | _ => none

def handlerName? (t : Tree) : Option Tree :=
  caughtName? (t.named.filter fun (c : Tree) => c.kind != "block")

/-- The node that spells an imported name which is not renamed on its own. -/
def importedName? (t : Tree) : Option Tree := if t.kind = "aliased_import" then none else some t

/-- The nodes whose text is read at a node: identifiers, the names that are declared, imported,
passed as keywords or bound by handlers, and attributes. -/
def spellings (t : Tree) : List Tree :=
  match t.kind with
  | "identifier" | "keyword_identifier" => [t]
  | "dotted_name" => t.named
  | "attribute" => (t.field? "attribute").toList
  | "member_type" => (secondOfTwo? t.named).toList
  | "keyword_argument" | "class_definition" | "aliased_import" => (t.field? "name").toList
  | "lambda" => declaredNames t
  | "function_definition" => (t.field? "name").toList ++ declaredNames t
  | "import_statement" | "import_from_statement" | "future_import_statement" =>
      (t.fields "name").filterMap importedName?
  | "except_clause" | "except_group_clause" => (handlerName? t).toList
  | _ => []

def openings (t : Tree) : List Tree :=
  match t.kind with
  | "string" => (opening? t).toList
  | "concatenated_string" => t.named.filterMap opening?
  | _ => []

end Tree

def stringPrefix (text : String) : List Char := text.toList.takeWhile fun c => c != '"' && c != '\''

def Source.prefix? (s : Source) (opening : Tree) : Option (List Char) :=
  (s.slice? opening).map stringPrefix

structure Feature where
  kind : String
  named : Bool
  field : Option String
  texts : List (Option String)
  prefixes : List (Option (List Char))
deriving DecidableEq

namespace Tree

def feature (s : Source) (t : Tree) : Feature :=
  ⟨t.kind, t.info.named, t.info.field, t.spellings.map s.slice?, t.openings.map s.prefix?⟩

mutual

/-- The tree without extra nodes and spans. -/
def outline (s : Source) : Tree → Rose Feature
  | .node i cs => .node (feature s (.node i cs)) (forestOutline s cs)

def forestOutline (s : Source) : List Tree → List (Rose Feature)
  | [] => []
  | c :: cs => if (info c).extra then forestOutline s cs else outline s c :: forestOutline s cs

end

/-- No extra node has a role. -/
def PlainExtras (t : Tree) : Prop := ∀ i ∈ t.values, i.extra = true → i.field = none

instance (t : Tree) : Decidable t.PlainExtras :=
  inferInstanceAs (Decidable (∀ i ∈ t.values, i.extra = true → i.field = none))

end Tree

/-- Two trees that differ in their extra nodes and their spans only. -/
structure Alike (s s' : Source) (t t' : Tree) : Prop where
  outline : t.outline s = t'.outline s'
  left : t.PlainExtras
  right : t'.PlainExtras

theorem forestOutline_eq (s : Source) (cs : List Tree) :
    Tree.forestOutline s cs =
      (cs.filter fun (c : Tree) => !c.info.extra).map (Tree.outline s) := by
  induction cs with
  | nil => rw [Tree.forestOutline, List.filter_nil, List.map_nil]
  | cons c cs ih =>
      rw [Tree.forestOutline, List.filter_cons]
      cases hc : (Tree.info c).extra with
      | true =>
          rw [if_pos rfl, ih]
          rfl
      | false =>
          rw [if_neg Bool.false_ne_true, ih]
          rfl

theorem Tree.PlainExtras.child {t c : Tree} (h : t.PlainExtras) (hc : c ∈ t.children) :
    c.PlainExtras := by
  obtain ⟨i, cs⟩ := t
  intro j hj
  refine h j ?_
  rw [Rose.values_node]
  exact List.mem_cons_of_mem _ (List.mem_flatMap.mpr ⟨c, hc, hj⟩)

theorem Tree.PlainExtras.field_child {t c : Tree} (h : t.PlainExtras) (hc : c ∈ t.children)
    (hx : c.info.extra = true) : c.info.field = none := by
  refine h.child hc c.info ?_ hx
  obtain ⟨j, ds⟩ := c
  rw [Rose.values_node]
  exact List.mem_cons_self

namespace Tree

theorem named_eq_filter_tokens (t : Tree) :
    t.named = t.tokens.filter fun (c : Tree) => c.info.named := by
  rw [named, tokens, List.filter_filter]

section accessors

variable {t : Tree}

theorem isExtra_of_field (h : t.PlainExtras) {name : String} {c : Tree} (hc : c ∈ t.children)
    (hf : (c.info.field == some name) = true) : (!c.info.extra) = true := by
  cases hx : c.info.extra with
  | false => rfl
  | true =>
      rw [h.field_child hc hx] at hf
      exact absurd hf (by simp)

theorem fields_eq_filter_tokens (h : t.PlainExtras) (name : String) :
    t.fields name = t.tokens.filter fun (c : Tree) => c.info.field == some name := by
  rw [fields, tokens, List.filter_filter]
  refine List.filter_congr fun c hc => ?_
  cases hf : c.info.field == some name with
  | false => rfl
  | true => rw [isExtra_of_field h hc hf]; rfl

theorem field?_eq_head? (t : Tree) (name : String) : t.field? name = (t.fields name).head? :=
  List.head?_filter.symm

theorem namedBeside_eq_filter (h : t.PlainExtras) (name : String) :
    t.namedBeside name =
      (t.tokens.eraseP fun (c : Tree) => c.info.field == some name).filter
        fun (c : Tree) => c.info.named := by
  rw [namedBeside, tokens, ← filter_eraseP fun c hc => isExtra_of_field h hc, List.filter_filter]

end accessors

end Tree

namespace Alike

variable {s s' : Source} {t t' : Tree}

theorem feature (h : Alike s s' t t') : t.feature s = t'.feature s' := by
  obtain ⟨i, cs⟩ := t
  obtain ⟨j, ds⟩ := t'
  have := h.outline
  rw [Tree.outline, Tree.outline, Rose.node.injEq] at this
  exact this.1

theorem kind (h : Alike s s' t t') : t.kind = t'.kind := congrArg Feature.kind h.feature

theorem named_eq (h : Alike s s' t t') : t.info.named = t'.info.named :=
  congrArg Feature.named h.feature

theorem field_eq (h : Alike s s' t t') : t.info.field = t'.info.field :=
  congrArg Feature.field h.feature

theorem spelled (h : Alike s s' t t') : t.spellings.map s.slice? = t'.spellings.map s'.slice? :=
  congrArg Feature.texts h.feature

theorem prefixed (h : Alike s s' t t') : t.openings.map s.prefix? = t'.openings.map s'.prefix? :=
  congrArg Feature.prefixes h.feature

theorem forall₂_of_map_outline {ts us : List Tree} (hts : ∀ t ∈ ts, t.PlainExtras)
    (hus : ∀ u ∈ us, u.PlainExtras) (h : ts.map (Tree.outline s) = us.map (Tree.outline s')) :
    List.Forall₂ (Alike s s') ts us := by
  induction ts generalizing us with
  | nil =>
      obtain rfl : us = [] := List.map_eq_nil_iff.mp h.symm
      exact .nil
  | cons t ts ih =>
      cases us with
      | nil => exact absurd h (List.cons_ne_nil _ _)
      | cons u us =>
          rw [List.map_cons, List.map_cons, List.cons.injEq] at h
          refine .cons ⟨h.1, hts t List.mem_cons_self, hus u List.mem_cons_self⟩ ?_
          exact ih (fun t ht => hts t (List.mem_cons_of_mem _ ht))
            (fun u hu => hus u (List.mem_cons_of_mem _ hu)) h.2

theorem tokens (h : Alike s s' t t') : List.Forall₂ (Alike s s') t.tokens t'.tokens := by
  have hkept : ∀ {u : Tree}, u.PlainExtras → ∀ c ∈ u.tokens, c.PlainExtras :=
    fun hu c hc => hu.child (List.mem_filter.mp hc).1
  refine forall₂_of_map_outline (hkept h.left) (hkept h.right) ?_
  have houtline := h.outline
  obtain ⟨i, cs⟩ := t
  obtain ⟨j, ds⟩ := t'
  rw [Tree.outline, Tree.outline, Rose.node.injEq, forestOutline_eq, forestOutline_eq] at houtline
  exact houtline.2

theorem fields (h : Alike s s' t t') (name : String) :
    List.Forall₂ (Alike s s') (t.fields name) (t'.fields name) := by
  rw [Tree.fields_eq_filter_tokens h.left, Tree.fields_eq_filter_tokens h.right]
  exact forall₂_filter h.tokens fun _ _ hc => by rw [hc.field_eq]

theorem namedBeside (h : Alike s s' t t') (name : String) :
    List.Forall₂ (Alike s s') (t.namedBeside name) (t'.namedBeside name) := by
  rw [Tree.namedBeside_eq_filter h.left, Tree.namedBeside_eq_filter h.right]
  exact forall₂_filter (forall₂_eraseP h.tokens fun _ _ hc => by rw [hc.field_eq])
    fun _ _ hc => hc.named_eq

end Alike

end RenderGate.Concrete
