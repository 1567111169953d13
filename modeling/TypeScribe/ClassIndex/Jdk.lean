import TypeScribe.ClassIndex.Basic

/-!
# The common types of the JDK

The types of `java.lang`, `java.util` and `java.io` that a unit may name without further ado.
-/
namespace TypeScribe.ClassIndex
set_option autoImplicit false

def jdkClasses : List String :=
  ["java.lang.Object", "java.lang.String", "java.lang.Number", "java.lang.Integer",
    "java.lang.Long", "java.lang.Double", "java.lang.Float", "java.lang.Short", "java.lang.Byte",
    "java.lang.Character", "java.lang.Boolean", "java.lang.Void", "java.lang.Math",
    "java.lang.System", "java.lang.Thread", "java.lang.StringBuilder", "java.lang.Enum",
    "java.lang.Class", "java.lang.Throwable", "java.lang.Exception", "java.lang.Error",
    "java.lang.RuntimeException", "java.lang.IllegalArgumentException",
    "java.lang.IllegalStateException", "java.lang.NullPointerException",
    "java.lang.UnsupportedOperationException", "java.lang.IndexOutOfBoundsException",
    "java.util.ArrayList", "java.util.LinkedList", "java.util.HashMap", "java.util.HashSet",
    "java.util.Arrays", "java.util.Collections", "java.util.Calendar", "java.util.Date",
    "java.util.Locale", "java.util.TimeZone", "java.util.Objects", "java.util.Optional",
    "java.io.File", "java.io.IOException", "java.io.InputStream", "java.io.OutputStream"]

def jdkInterfaces : List String :=
  ["java.lang.CharSequence", "java.lang.Runnable", "java.lang.Comparable", "java.lang.Iterable",
    "java.lang.Cloneable", "java.lang.AutoCloseable", "java.lang.Override", "java.lang.Deprecated",
    "java.lang.SuppressWarnings", "java.lang.Thread$UncaughtExceptionHandler",
    "java.util.Collection", "java.util.List", "java.util.Set", "java.util.Map",
    "java.util.Map$Entry", "java.util.Iterator", "java.util.Comparator", "java.io.Serializable",
    "java.io.Closeable"]

def jdk : ClassIndex :=
  ofList (jdkClasses.map (TypeDescriptor.ofBinaryName · false)
    ++ jdkInterfaces.map (TypeDescriptor.ofBinaryName · true))

end TypeScribe.ClassIndex
