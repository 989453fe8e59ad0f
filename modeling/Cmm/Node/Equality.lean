import Cmm.Node.Basic

/-!
Equality of trees: class by class, slot by slot, with everything that the nodes hold but their
positions.
-/

namespace Cmm.Node

mutual

/-- Whether two trees are equal, positions left aside. -/
def sameAs : Node → Node → Bool
  | .absent, .absent => true
  | .base c _, .base d _ => c = d
  | .primitive t _, .primitive u _ => t = u
  | .structType i _, .structType j _ => i.sameAs j
  | .number v _, .number w _ => v = w
  | .string r _, .string s _ => r = s
  | .truth b _, .truth c _ => b = c
  | .name s _, .name t _ => s = t
  | .dot l i _, .dot m j _ => l.sameAs m && i.sameAs j
  | .assign l e _, .assign m f _ => l.sameAs m && e.sameAs f
  | .call i a _, .call j b _ => i.sameAs j && a.sameAs b
  | .unary o e _, .unary p f _ => o = p && e.sameAs f
  | .binary o l r _, .binary p m s _ => o = p && l.sameAs m && r.sameAs s
  | .list c xs _, .list d ys _ => c = d && allSameAs xs ys
  | .variableDecl t i s _, .variableDecl u j z _ => t.sameAs u && i.sameAs j && s = z
  | .formal t i _, .formal u j _ => t.sameAs u && i.sameAs j
  | .functionDecl t i f b _, .functionDecl u j g c _ =>
    t.sameAs u && i.sameAs j && f.sameAs g && b.sameAs c
  | .functionBody d s _, .functionBody e t _ => d.sameAs e && s.sameAs t
  | .structDecl i d _, .structDecl j e _ => i.sameAs j && d.sameAs e
  | .assignment e _, .assignment f _ => e.sameAs f
  | .increment e _, .increment f _ => e.sameAs f
  | .decrement e _, .decrement f _ => e.sameAs f
  | .read e _, .read f _ => e.sameAs f
  | .write e _, .write f _ => e.sameAs f
  | .ifThen e d s _, .ifThen f g t _ => e.sameAs f && d.sameAs g && s.sameAs t
  | .ifElse e d s g t _, .ifElse e' d' s' g' t' _ =>
    e.sameAs e' && d.sameAs d' && s.sameAs s' && g.sameAs g' && t.sameAs t'
  | .whileLoop e d s _, .whileLoop f g t _ => e.sameAs f && d.sameAs g && s.sameAs t
  | .repeatLoop e d s _, .repeatLoop f g t _ => e.sameAs f && d.sameAs g && s.sameAs t
  | .callStatement e _, .callStatement f _ => e.sameAs f
  | .returnStatement e _, .returnStatement f _ => e.sameAs f
  | .program d _, .program e _ => d.sameAs e
  | _, _ => false

def allSameAs : List Node → List Node → Bool
  | [], [] => true
  | x :: xs, y :: ys => x.sameAs y && allSameAs xs ys
  | _, _ => false

end

end Cmm.Node
