/-
The helpers that generated Python calls: reading and writing numbers, strings and
lists in a module's linear memory. They open every generated module.
-/
import Bindery.Glue.Lines

namespace Bindery.Glue.Python

/-- The lines of the helper module. -/
def helperLines : List Line := fixed
  ["# Helpers shared by the generated bindings. Values cross the boundary as",
   "# core wasm numbers; everything else lives in the guest's linear memory.",
   "",
   "from __future__ import annotations",
   "",
   "import struct",
   "from abc import abstractmethod",
   "from dataclasses import dataclass",
   "from enum import IntEnum, IntFlag",
   "from typing import Any, Callable, Generic, List, Optional, Protocol, Tuple, TypeVar, Union",
   "",
   "import wasmer",
   "",
   "T = TypeVar(\"T\")",
   "E = TypeVar(\"E\")",
   "",
   "",
   "@dataclass",
   "class Ok(Generic[T]):",
   "    value: T",
   "",
   "",
   "@dataclass",
   "class Err(Generic[E]):",
   "    value: E",
   "",
   "",
   "Result = Union[Ok[T], Err[E]]",
   "",
   "_FORMATS = \x7b",
   "    \"u8\": \"<B\",",
   "    \"s8\": \"<b\",",
   "    \"u16\": \"<H\",",
   "    \"s16\": \"<h\",",
   "    \"u32\": \"<I\",",
   "    \"s32\": \"<i\",",
   "    \"u64\": \"<Q\",",
   "    \"s64\": \"<q\",",
   "    \"f32\": \"<f\",",
   "    \"f64\": \"<d\",",
   "\x7d",
   "",
   "",
   "def _load(memory: wasmer.Memory, kind: str, ptr: int) -> Any:",
   "    fmt = _FORMATS[kind]",
   "    view = memory.uint8_view(ptr)",
   "    return struct.unpack(fmt, bytes(view[0:struct.calcsize(fmt)]))[0]",
   "",
   "",
   "def _store(memory: wasmer.Memory, kind: str, ptr: int, value: Any) -> None:",
   "    data = struct.pack(_FORMATS[kind], value)",
   "    view = memory.uint8_view(ptr)",
   "    view[0:len(data)] = data",
   "",
   "",
   "def _signed(value: int, bits: int) -> int:",
   "    value &= (1 << bits) - 1",
   "    if value >= 1 << (bits - 1):",
   "        value -= 1 << bits",
   "    return value",
   "",
   "",
   "def _encode_string(memory: wasmer.Memory, realloc: Callable, value: str) -> Tuple[int, int]:",
   "    if not isinstance(value, str):",
   "        raise TypeError(\"expected a str\")",
   "    data = value.encode(\"utf-8\")",
   "    ptr = realloc(0, 0, 1, len(data))",
   "    view = memory.uint8_view(ptr)",
   "    view[0:len(data)] = data",
   "    return ptr, len(data)",
   "",
   "",
   "def _decode_string(memory: wasmer.Memory, ptr: int, length: int) -> str:",
   "    return bytes(memory.uint8_view(ptr)[0:length]).decode(\"utf-8\")",
   "",
   "",
   "def _load_string(memory: wasmer.Memory, ptr: int) -> str:",
   "    return _decode_string(memory, _load(memory, \"u32\", ptr), _load(memory, \"u32\", ptr + 4))",
   "",
   "",
   "def _store_string(memory: wasmer.Memory, realloc: Callable, ptr: int, value: str) -> None:",
   "    data, length = _encode_string(memory, realloc, value)",
   "    _store(memory, \"u32\", ptr, data)",
   "    _store(memory, \"u32\", ptr + 4, length)",
   "",
   "",
   "def _lower_list(memory: wasmer.Memory, realloc: Callable, values: List[Any], size: int, align: int, store_element: Callable) -> Tuple[int, int]:",
   "    ptr = realloc(0, 0, align, len(values) * size)",
   "    for i, value in enumerate(values):",
   "        store_element(value, ptr + i * size)",
   "    return ptr, len(values)",
   "",
   "",
   "def _lift_list(memory: wasmer.Memory, ptr: int, length: int, size: int, load_element: Callable) -> List[Any]:",
   "    return [load_element(ptr + i * size) for i in range(length)]",
   "",
   "",
   "def _load_list(memory: wasmer.Memory, ptr: int, size: int, load_element: Callable) -> List[Any]:",
   "    return _lift_list(memory, _load(memory, \"u32\", ptr), _load(memory, \"u32\", ptr + 4), size, load_element)",
   "",
   "",
   "def _store_list(memory: wasmer.Memory, realloc: Callable, ptr: int, values: List[Any], size: int, align: int, store_element: Callable) -> None:",
   "    data, length = _lower_list(memory, realloc, values, size, align, store_element)",
   "    _store(memory, \"u32\", ptr, data)",
   "    _store(memory, \"u32\", ptr + 4, length)",
   "",
   "",
   "def _unsupported(message: str) -> Any:",
   "    raise NotImplementedError(message)"]

end Bindery.Glue.Python
