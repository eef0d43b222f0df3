import MiniTemplate.Table

/-!
# What a template is converted to

The names of tags and attributes are mapped by tables, and some tags of the target
never have an end tag. A `MiniTemplate.Vue.Target` is a choice of these, with the
indentation of the output; `MiniTemplate.Vue.Target.standard` is the built-in one.
-/

namespace MiniTemplate.Vue

/-- The tags of a mini-program and what they become. -/
def tagTable : Table String := ⟨[
  ("view", "div"),
  ("text", "span"),
  ("image", "img"),
  ("navigator", "router-link"),
  ("button", "button"),
  ("input", "input"),
  ("textarea", "textarea"),
  ("scroll-view", "div"),
  ("swiper", "div"),
  ("swiper-item", "div"),
  ("picker", "select"),
  ("picker-view", "div"),
  ("slider", "input"),
  ("switch", "input"),
  ("checkbox", "input"),
  ("radio", "input"),
  ("form", "form"),
  ("label", "label")]⟩

/-- The plain attributes that are renamed; one that becomes nothing is dropped. -/
def attributeTable : Table String := ⟨[
  ("wx:key", "key"),
  ("hover-class", ":class"),
  ("hover-start-time", ""),
  ("hover-stay-time", ""),
  ("scroll-x", ""),
  ("scroll-y", ""),
  ("scroll-top", ":scroll-top"),
  ("scroll-left", ":scroll-left"),
  ("enable-back-to-top", "")]⟩

/-- The tags without an end tag. -/
def voidTags : List String :=
  ["img", "input", "br", "hr", "meta", "link", "area", "base", "col", "embed", "source", "track",
    "wbr"]

/-- The events whose names differ, and their names in the target. -/
def eventTable : Table String := ⟨[("tap", "click")]⟩

/-- The directives that become an attribute of the same meaning. -/
def directiveTable : Table String := ⟨[
  ("wx:if", "v-if"),
  ("wx:elif", "v-else-if"),
  ("wx:model", "v-model"),
  ("wx:show", "v-show"),
  ("wx:class", ":class"),
  ("wx:style", ":style")]⟩

/-- What a template is converted to. -/
structure Target where
  /-- The number of spaces a level is indented by; below zero there are none. -/
  indent : Int
  tags : Table String
  attributes : Table String
  voidTags : List String
  deriving DecidableEq, Repr

namespace Target

/-- The built-in target. -/
def standard : Target := ⟨2, tagTable, attributeTable, Vue.voidTags⟩

/-- The name of a tag in the target. -/
def tagName (t : Target) (name : String) : String := t.tags.getD name name

/-- Is it a tag without an end tag? -/
def isVoid (t : Target) (tag : String) : Bool := t.voidTags.contains tag

end Target

end MiniTemplate.Vue
