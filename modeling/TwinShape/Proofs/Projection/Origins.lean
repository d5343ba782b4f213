import TwinShape.Proofs.Declaration.Identifiers
import TwinShape.Proofs.Projection.Causes
import TwinShape.Proofs.Projection.Cycles

namespace TwinShape
namespace Registry
variable {r : Registry} {v : Variant}

-- A node that a definition has, in its own tree or in that of a definition that an object there
-- extends, and so on.
inductive Inherits (r : Registry) (v : Variant) (y : Node) : String → Prop
  | own (found : r.find? name = some root) (survives : y.Survives v root) : Inherits r v y name
  | from_ (extends_ : r.Extends v name parent) (inherits : Inherits r v y parent) : Inherits r v y name

theorem Inherits.holds {y : Node} (inherits : r.Inherits v y name) (alone : ∀ parent, ¬r.Extends v name parent) :
    r.Holds name y := by
  cases inherits with
  | own found survives => exact ⟨_, found, survives.part⟩
  | from_ extends_ => exact absurd extends_ (alone _)

-- A node that is come to in projecting a definition: what survives in it belongs to a definition
-- from which everything is inherited.
def Enters (r : Registry) (v : Variant) (name : String) (n : Node) : Prop :=
  ∃ owner root, r.find? owner = some root ∧ (∀ y : Node, y.Survives v n → y.Survives v root) ∧
    ∀ y, r.Inherits v y owner → r.Inherits v y name

namespace Enters
variable {n : Node}

theorem inherits (enters : r.Enters v name n) (inside : n.restriction.includes v) : r.Inherits v n name := by
  obtain ⟨owner, root, found, above, passed⟩ := enters
  exact passed n (.own found (above n (.self inside)))

theorem inward (enters : r.Enters v name n) (inside : n.restriction.includes v) (child : c ∈ n.shape.projectedNodes v) :
    r.Enters v name c := by
  obtain ⟨owner, root, found, above, passed⟩ := enters
  exact ⟨owner, root, found, fun y survives => above y (.under inside child survives), passed⟩

theorem merging (enters : r.Enters v name n) (inside : n.restriction.includes v) (shape : n.shape = .object o)
    (listed : p ∈ o.parents) (kept : p.restriction.includes v) (named : p.shape = .reference parent)
    (found' : r.find? parent = some target) : r.Enters v name target := by
  obtain ⟨owner, root, found, above, passed⟩ := enters
  have extends_ : r.Extends v owner parent := ⟨p, ⟨root, n, o, found, above n (.self inside), shape, listed, named⟩, kept⟩
  exact ⟨parent, target, found', fun _ => id, fun y inherits => passed y (.from_ extends_ inherits)⟩

end Enters

-- What holds no nodes and names no definition comes out of a projection as the definition has it.
theorem inherits_of_tells (told : r.Tells r.InSession name v (some n)) :
    n.Each fun x => x.shape.isLeaf → ∃ y, r.Inherits v y name ∧ x = y.rebuilt y.shape := by
  obtain ⟨root, resolves, projects⟩ := shows_of_tells told
  have start : r.Enters v name root := ⟨name, root, resolves.1, fun _ => id, fun _ => id⟩
  refine projects.entering (fun _ _ => Enters.inward) (fun _ _ _ _ _ => Enters.merging) ?_ ?_ ?_ ?_ start n rfl
  · exact fun m enters inside _ _ => ⟨m, enters.inherits inside, rfl⟩
  · exact fun _ _ _ _ => nofun
  · exact fun _ _ _ _ _ => nofun
  · exact fun _ _ _ composite leaf => nomatch leaf.symm.trans (Shape.isLeaf_of_composite composite)

end Registry
end TwinShape
