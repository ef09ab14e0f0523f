import ReactiveView.Data.Rendering
import ReactiveView.Reactive.Compilation

/-!
# Inspection

How the parts of a running view show themselves. Identities of subscribers are
not shown.
-/

namespace ReactiveView

set_option autoImplicit false

def inspectedParts (name : String) (parts : List (String × String)) : String :=
  name ++ " \x7b " ++ String.intercalate ", " (parts.map (fun part => part.1 ++ ": " ++ part.2)) ++
    " \x7d"

namespace Store

def inspectedRegistry (store : Store) (registry : RegistryId) : String :=
  inspectedParts "DependencyRegistry"
    [("subscribers", toString (store.subscribers registry).length)]

def inspectedRoot (store : Store) (root : RecordId) : String :=
  inspectedParts "ReactiveStore" [("root", store.inspected (.record root))]

end Store

def inspectedMethods {κ : Type} (methods : Dictionary κ) : String :=
  Store.enclosed "[" "]" (methods.keys.map Text.quoted)

namespace Context

def inspected {κ : Type} (context : Context κ) (store : Store) : String :=
  inspectedParts "Context" [("inner", inspectedParts "ContextInner"
    [("data", store.inspected (.record context.data)),
     ("methods", inspectedMethods context.methods)])]

end Context

namespace Binding

/-- A binding shows its source and how many registries it subscribes to. -/
def inspected {κ : Type} (binding : Binding κ) : String :=
  inspectedParts "Binding"
    [("id", "SubscriberId(Ulid(_))"), ("source", Text.quoted binding.source),
     ("dependencies", toString binding.subscriptions.length)]

end Binding

def inspectedOptions {κ : Type} (store : Store) (selector : String) (data : RecordId)
    (methods : Dictionary κ) : String :=
  inspectedParts "Options"
    [("el", Text.quoted selector), ("data", store.inspected (.record data)),
     ("methods", inspectedMethods methods)]

namespace View

def inspected {κ σ : Type} (view : View κ) (state : State κ σ) : String :=
  inspectedParts "ViewModel"
    [("mount", view.mount.inspected),
     ("data", state.store.inspected (.record view.context.data)),
     ("methods", inspectedMethods view.context.methods),
     ("bindings", Store.enclosed "[" "]"
       ((view.bindings.filterMap state.binding?).map Binding.inspected))]

end View

end ReactiveView
