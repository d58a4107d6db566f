import Mathlib.Data.List.Forall2
import PolicyLint.Proofs.Xml.Lines
import PolicyLint.Tool.Checkstyle
/-!
Checkstyle's configuration read back as a tree of modules. Main statement: whatever the names, the
properties and the values are, a configuration reads as one checker with the tree walker and its modules,
and behind it the line lengths; nothing is lost, added or merged.
-/
namespace PolicyLint.Tool.Checkstyle

open Xml

/-! ### The reader -/

/-- A module as it stands in a configuration. -/
inductive ModuleTree where
  | mk (name : String) (properties : List (String × String)) (modules : List ModuleTree)

mutual

/-- A `module` element has a name and no text; properties and modules stand in it. -/
def ModuleTree.read? : Element → Option ModuleTree
  | .mk name attributes text content =>
    match attributes with
    | [("name", given)] =>
      if name = "module" ∧ text.toList.all isSpace then
        (ModuleTree.readParts? content).map fun parts => .mk given parts.1 parts.2
      else none
    | _ => none

def ModuleTree.readParts? : List Element → Option (List (String × String) × List ModuleTree)
  | [] => some ([], [])
  | e :: rest =>
    (ModuleTree.readParts? rest).bind fun parts =>
      match e.property? with
      | some p => some (p :: parts.1, parts.2)
      | none => (ModuleTree.read? e).map fun m => (parts.1, m :: parts.2)

end

/-- A configuration behind its prolog. -/
def readConfiguration? (text : String) : Option ModuleTree :=
  ((Text.afterLead? prolog.toList text.toList).bind (readDocument? [])).bind ModuleTree.read?

theorem ModuleTree.readParts?_properties (properties : List (String × String)) :
    ModuleTree.readParts? (properties.map Element.property) = some (properties, []) := by
  induction properties with
  | nil => rfl
  | cons p properties ih =>
    rw [List.map_cons, ModuleTree.readParts?, ih, Option.bind_some, Element.property?_property]

/-- An element that is no property must be a module. -/
theorem ModuleTree.readParts?_modules {elements : List Element} {modules : List ModuleTree}
    (read : List.Forall₂ (fun e m => e.property? = none ∧ ModuleTree.read? e = some m) elements modules) :
    ModuleTree.readParts? elements = some ([], modules) := by
  induction read with
  | nil => rfl
  | cons first _ ih =>
    obtain ⟨other, read⟩ := first
    rw [ModuleTree.readParts?, ih, Option.bind_some, other, read]
    rfl

/-! ### What is to be read -/

def Module.tree (m : Module) : ModuleTree :=
  .mk m.name m.properties []

/-- The tree walker holds every module but the line lengths. -/
def walked (modules : List Module) : List Module :=
  modules.filter fun m => m.name ≠ "LineLength"

/-- The line lengths stand beside it. -/
def unwalked (modules : List Module) : List Module :=
  modules.filter fun m => m.name = "LineLength"

/-- There is no tree walker without modules in it. -/
def walker (modules : List Module) : List ModuleTree :=
  if walked modules = [] then [] else [.mk "TreeWalker" [] ((walked modules).map Module.tree)]

def checker (modules : List Module) : ModuleTree :=
  .mk "Checker" [] (walker modules ++ (unwalked modules).map Module.tree)

theorem Module.isLineLength_eq : Module.isLineLength = fun m => decide (m.name = "LineLength") :=
  rfl

theorem filter_isLineLength (modules : List Module) :
    modules.filter Module.isLineLength = unwalked modules := by
  rw [Module.isLineLength_eq, unwalked]

theorem filter_not_isLineLength (modules : List Module) :
    (modules.filter fun m => !m.isLineLength) = walked modules := by
  simp only [Module.isLineLength_eq, walked, decide_not]

/-! ### How modules are written -/

def moduleName : Name := ⟨"module".toList, by simp [inName, isSpace]⟩

def moduleInside (name : String) : Inside :=
  .plain [(nameKey, name)]

def moduleElement (name : String) (content : List Element) : Element :=
  .mk "module" [("name", name)] "" content

theorem text_moduleOpening (name : String) :
    (Mark.opening moduleName (moduleInside name)).text =
      "<module name=\"".toList ++ (escapeChars name.toList ++ "\">".toList) := by
  have opening : "<module name=\"".toList = '<' :: (moduleName.1 ++ ' ' :: (nameKey.1 ++ ['=', '"'])) := rfl
  have ending : "\">".toList = ['"', '>'] := rfl
  rw [moduleInside, Mark.text_opening, opening, ending]
  simp only [attributesText_cons, attributesText_nil, List.append_assoc, List.cons_append, List.nil_append]

theorem text_moduleEmpty (name : String) :
    (Mark.empty moduleName (moduleInside name)).text =
      "<module name=\"".toList ++ (escapeChars name.toList ++ "\"/>".toList) := by
  have opening : "<module name=\"".toList = '<' :: (moduleName.1 ++ ' ' :: (nameKey.1 ++ ['=', '"'])) := rfl
  have ending : "\"/>".toList = ['"', '/', '>'] := rfl
  rw [moduleInside, Mark.text_empty, opening, ending]
  simp only [attributesText_cons, attributesText_nil, List.append_assoc, List.cons_append, List.nil_append]

theorem text_moduleClosing : (Mark.closing moduleName noSpaces).text = "</module>".toList :=
  rfl

theorem toList_propertyLine (indent : String) (p : String × String) :
    (propertyLine indent p).toList =
      indent.toList ++ ((blanks 2).1 ++ ((propertyMark p).text ++ lineEnd.1)) := by
  have opening : "  <property name=\"".toList = (blanks 2).1 ++ "<property name=\"".toList := rfl
  have ending : "\"/>\n".toList = "\"/>".toList ++ lineEnd.1 := rfl
  simp only [propertyLine, text_propertyMark, String.toList_append, toList_escape, opening, ending,
    List.append_assoc]

theorem Module.toList_render (indent : String) (m : Module) :
    (m.render indent).toList =
      if m.properties = [] then
        indent.toList ++ ((Mark.empty moduleName (moduleInside m.name)).text ++ lineEnd.1)
      else
        elementLines indent.toList moduleName (moduleInside m.name)
          (m.properties.flatMap fun p => (propertyLine indent p).toList) := by
  have emptyEnd : "/>\n".toList = "/>".toList ++ lineEnd.1 := rfl
  have openEnd : ">\n".toList = ">".toList ++ lineEnd.1 := rfl
  have closing : "</module>\n".toList = "</module>".toList ++ lineEnd.1 := rfl
  have emptied : "\"/>".toList = "\"".toList ++ "/>".toList := rfl
  have opened : "\">".toList = "\"".toList ++ ">".toList := rfl
  unfold Module.render
  simp only [List.isEmpty_iff]
  split
  · simp only [String.toList_append, toList_escape, text_moduleEmpty, emptyEnd, emptied, List.append_assoc]
  · simp only [String.toList_append, String.toList_join, toList_escape, elementLines, text_moduleOpening,
      text_moduleClosing, openEnd, closing, opened, List.append_assoc, List.flatMap_map]

/-! ### What they are read as -/

def Module.element (m : Module) : Element :=
  moduleElement m.name (m.properties.map Element.property)

theorem Module.read?_element (m : Module) : ModuleTree.read? m.element = some m.tree := by
  have read := ModuleTree.readParts?_properties m.properties
  simp [Module.element, moduleElement, ModuleTree.read?, read, Module.tree]

theorem Module.forall₂_element (modules : List Module) :
    List.Forall₂ (fun e m => e.property? = none ∧ ModuleTree.read? e = some m)
      (modules.map Module.element) (modules.map Module.tree) := by
  rw [List.forall₂_map_left_iff, List.forall₂_map_right_iff, List.forall₂_same]
  exact fun m _ => ⟨by simp [Module.element, moduleElement, Element.property?], m.read?_element⟩

theorem reads_propertyLine (indent : Spaces) (p : String × String) :
    Reads (propertyLine (String.ofList indent.1) p).toList [.property p] := by
  rw [toList_propertyLine, String.toList_ofList, ← List.append_assoc]
  exact (Reads.property p).between (indent.append (blanks 2)) lineEnd

theorem reads_module (indent : Spaces) (m : Module) :
    Reads (m.render (String.ofList indent.1)).toList [m.element] := by
  rw [Module.toList_render, String.toList_ofList]
  split
  · rename_i empty
    rw [Module.element, empty]
    exact (Reads.empty moduleName (moduleInside m.name)).between indent lineEnd
  · rename_i nonempty
    exact (Reads.flatMap (reads_propertyLine indent) m.properties).lines_some indent (by simpa using nonempty)
      moduleName (moduleInside m.name)

theorem reads_modules (indent : Spaces) (modules : List Module) :
    Reads (String.join (modules.map (Module.render (String.ofList indent.1)))).toList
      (modules.map Module.element) := by
  rw [String.toList_join, List.flatMap_map]
  exact Reads.flatMap (reads_module indent) modules

/-! ### The whole of it -/

theorem toList_walkerPart (modules : List Module) :
    (walkerPart modules).toList =
      if walked modules = [] then []
      else
        elementLines (blanks 2).1 moduleName (moduleInside "TreeWalker")
          (String.join ((walked modules).map (Module.render "    "))).toList := by
  have opening : "  <module name=\"TreeWalker\">\n".toList =
      (blanks 2).1 ++ ((Mark.opening moduleName (moduleInside "TreeWalker")).text ++ lineEnd.1) := rfl
  have closing : "  </module>\n".toList =
      (blanks 2).1 ++ ((Mark.closing moduleName noSpaces).text ++ lineEnd.1) := rfl
  rw [walkerPart, filter_not_isLineLength]
  simp only [List.isEmpty_iff]
  split
  · rfl
  · simp only [String.toList_append, elementLines, opening, closing, List.append_assoc]

theorem toList_render_lines (modules : List Module) :
    (render modules).toList = prolog.toList ++ elementLines [] moduleName (moduleInside "Checker")
      ((walkerPart modules).toList ++
        (String.join ((unwalked modules).map (Module.render "  "))).toList) := by
  have opening : "<module name=\"Checker\">\n".toList =
      (Mark.opening moduleName (moduleInside "Checker")).text ++ lineEnd.1 := rfl
  have closing : "</module>\n".toList = (Mark.closing moduleName noSpaces).text ++ lineEnd.1 := rfl
  simp only [render, filter_isLineLength, String.toList_append, elementLines, opening, closing,
    List.append_assoc, List.nil_append]

def walkerElements (modules : List Module) : List Element :=
  if walked modules = [] then [] else [moduleElement "TreeWalker" ((walked modules).map Module.element)]

theorem reads_walkerPart (modules : List Module) :
    Reads (walkerPart modules).toList (walkerElements modules) := by
  rw [toList_walkerPart, walkerElements]
  by_cases empty : walked modules = []
  · rw [if_pos empty, if_pos empty]
    exact Reads.nil
  · rw [if_neg empty, if_neg empty]
    have inner : Reads _ _ := reads_modules (blanks 4) (walked modules)
    exact inner.lines_some (blanks 2) (by simpa using empty) moduleName
      (moduleInside "TreeWalker")

theorem forall₂_walkerElements (modules : List Module) :
    List.Forall₂ (fun e m => e.property? = none ∧ ModuleTree.read? e = some m)
      (walkerElements modules) (walker modules) := by
  rw [walkerElements, walker]
  by_cases empty : walked modules = []
  · rw [if_pos empty, if_pos empty]
    exact .nil
  · rw [if_neg empty, if_neg empty]
    have read := ModuleTree.readParts?_modules (Module.forall₂_element (walked modules))
    refine .cons ⟨?_, ?_⟩ .nil
    · simp [moduleElement, Element.property?]
    · simp [moduleElement, ModuleTree.read?, read]

/-- The configuration of any modules reads as a checker with the tree walker in it, which holds the modules
that are no line lengths, and behind that the line lengths: each with its name and properties, in order. -/
theorem configuration_read (modules : List Module) :
    readConfiguration? (render modules) = some (checker modules) := by
  have inner := (reads_walkerPart modules).append
    (reads_modules (blanks 2) (unwalked modules))
  obtain ⟨text, -, lines⟩ := inner.lines noSpaces moduleName (moduleInside "Checker")
  have parts := ModuleTree.readParts?_modules (List.rel_append (forall₂_walkerElements modules)
    (Module.forall₂_element (unwalked modules)))
  have tree : ModuleTree.read? (.mk "module" [("name", "Checker")] (String.ofList text.1)
      (walkerElements modules ++ (unwalked modules).map Module.element)) =
        some (checker modules) := by
    simp [ModuleTree.read?, parts, text.all, checker]
  have document : readDocument? [] (elementLines [] moduleName (moduleInside "Checker") _) = _ :=
    lines.document
  rw [readConfiguration?, toList_render_lines, Text.afterLead?_append, Option.bind_some]
  exact (congrArg (Option.bind · ModuleTree.read?) document).trans tree

example : render [⟨"LineLength", [("max", "100")]⟩, ⟨"EmptyBlock", []⟩] = prolog ++
    "<module name=\"Checker\">\n" ++
    "  <module name=\"TreeWalker\">\n    <module name=\"EmptyBlock\"/>\n  </module>\n" ++
    "  <module name=\"LineLength\">\n    <property name=\"max\" value=\"100\"/>\n  </module>\n" ++
    "</module>\n" := by
  decide +kernel

example : checker [⟨"LineLength", [("max", "100")]⟩, ⟨"EmptyBlock", []⟩] =
    .mk "Checker" []
      [.mk "TreeWalker" [] [.mk "EmptyBlock" [] []], .mk "LineLength" [("max", "100")] []] := rfl

end PolicyLint.Tool.Checkstyle
