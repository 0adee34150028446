import RenderGate.Rose

/-!
# Concrete trees

The tree that a grammar yields for a text: every token is a node, and a node covers a span of the
bytes of the text.  Comments are nodes too, marked as extra, since they may stand between any two
others.  Faults of the text are nodes that are marked as errors or as missing.
-/

namespace RenderGate.Concrete

/-- What a node of a concrete tree is and which bytes of the text it covers. -/
structure Info where
  /-- The name of the grammar rule or token. -/
  kind : String
  /-- The node comes from a named rule and is not a bare token. -/
  named : Bool
  /-- The node may stand anywhere, as comments do. -/
  extra : Bool
  /-- The node covers text that fits no rule. -/
  error : Bool
  /-- The node stands for a token that the text lacks. -/
  missing : Bool
  /-- The node or one below it is an error or missing. -/
  faulty : Bool
  /-- The role of the node in its parent. -/
  field : Option String
  /-- The offset of the first byte. -/
  start : Nat
  /-- The offset after the last byte. -/
  stop : Nat
deriving DecidableEq, Repr

abbrev Tree := Rose Info

namespace Tree

def info (t : Tree) : Info := t.value

def kind (t : Tree) : String := t.info.kind

/-- The children that are not extra. -/
def tokens (t : Tree) : List Tree := t.children.filter fun (c : Tree) => !c.info.extra

/-- The named children that are not extra. -/
def named (t : Tree) : List Tree :=
  t.children.filter fun (c : Tree) => c.info.named && !c.info.extra

def fields (t : Tree) (name : String) : List Tree :=
  t.children.filter fun (c : Tree) => c.info.field == some name

def field? (t : Tree) (name : String) : Option Tree :=
  t.children.find? fun (c : Tree) => c.info.field == some name

def namedBeside (t : Tree) (name : String) : List Tree :=
  (t.children.eraseP fun (c : Tree) => c.info.field == some name).filter
    fun (c : Tree) => c.info.named && !c.info.extra

def hasToken (t : Tree) (kind : String) : Bool :=
  t.tokens.any fun (c : Tree) => !c.info.named && c.kind == kind

theorem size_lt_of_field? {t c : Tree} {name : String} (h : t.field? name = some c) :
    c.size < t.size :=
  Rose.size_lt_of_mem_children (List.mem_of_find?_eq_some h)

theorem size_lt_of_mem_tokens {t c : Tree} (h : c ∈ t.tokens) : c.size < t.size :=
  Rose.size_lt_of_mem_children (List.mem_filter.mp h).1

end Tree

end RenderGate.Concrete
